import Taskologic.Core.Control
import Taskologic.Library.Code128
import Taskologic.Print.Render

/-!
# The printer's own CODE128

`nativeBarcode` selects code set B and puts the payload after it as it is. In the data a brace is an escape, and the
number of data bytes has one byte, so what the printer draws is the payload exactly when it has no brace and at most
253 characters (`native_code128_carries_iff`).

Scope. Payloads of printable ASCII characters, the characters of code set B.
-/

set_option autoImplicit false
set_option relaxedAutoImplicit false

namespace Taskologic.Print

open Library Core

/-! ### The parts of the command -/

/-- What is sent before `GS k`: bar height, module width and where the text goes. -/
def barcodeSettings (height moduleWidth : UInt8) : List UInt8 :=
  [gs, 0x68, height] ++ [gs, 0x77, max 2 (min moduleWidth 6)] ++ [gs, 0x48, 2]

/-- The bytes carry a payload as CODE128: after the settings there are the command, the number of data bytes, the data
and the end of the line; the number is right, and the data reads as the payload. -/
def CarriesCode128 (height moduleWidth : UInt8) (payload : Text) (bytes : List UInt8) : Prop :=
  ∃ (n : UInt8) (data : List UInt8),
    bytes = barcodeSettings height moduleWidth ++ [gs, 0x6B, NativeBarcode.code128.number, n] ++ data ++ EscPos.newline ∧
      n.toNat = data.length ∧ readData data = some (payload.map .char)

/-- Printable ASCII characters only. -/
def PrintableAscii (payload : Text) : Prop := ∀ c ∈ payload, 32 ≤ c.toNat ∧ c.toNat < 127

instance decidablePrintableAscii (payload : Text) : Decidable (PrintableAscii payload) :=
  List.decidableBAll (fun c : Char ↦ 32 ≤ c.toNat ∧ c.toNat < 127) payload

/-! ### What the printer reads -/

section Payload

variable {payload : Text}

/-- The data is the code set and the payload, and the number its length modulo 256. -/
theorem carriesCode128_iff (height moduleWidth : UInt8) (payload : Text) :
    CarriesCode128 height moduleWidth payload (EscPos.nativeBarcode .code128 payload height moduleWidth) ↔
      readData (NativeBarcode.code128.start ++ payload.flatMap String.utf8EncodeChar) = some (payload.map .char) ∧
        (NativeBarcode.code128.start ++ payload.flatMap String.utf8EncodeChar).length < 256 := by
  constructor
  · rintro ⟨n, data, hbytes, hn, hread⟩
    change barcodeSettings height moduleWidth ++ _ ++ _ ++ _ = _ at hbytes
    have htail := List.append_cancel_right hbytes
    simp only [List.append_assoc, List.append_cancel_left_eq, List.cons_append, List.nil_append, List.cons.injEq,
      true_and] at htail
    obtain ⟨rfl, rfl⟩ := htail
    refine ⟨hread, ?_⟩
    rw [← hn]
    exact UInt8.toNat_lt _
  · rintro ⟨hread, hshort⟩
    refine ⟨_, _, rfl, ?_, hread⟩
    rw [UInt8.toNat_ofNat']
    exact Nat.mod_eq_of_lt hshort

theorem utf8_of_printableAscii (hpayload : PrintableAscii payload) :
    payload.flatMap String.utf8EncodeChar = payload.map fun c ↦ UInt8.ofNat c.toNat := by
  induction payload with
  | nil => rfl
  | cons c rest ih =>
    have hc : c.val.toNat ≤ 127 := (hpayload c List.mem_cons_self).2.le
    have hone : String.utf8EncodeChar c = [UInt8.ofNat c.toNat] := by
      rw [String.utf8EncodeChar, if_pos hc]
      rfl
    rw [List.flatMap_cons, hone, ih fun d hd ↦ hpayload d (List.mem_cons_of_mem c hd)]
    rfl

theorem toNat_ofNat_of_printable {c : Char} (hc : 32 ≤ c.toNat ∧ c.toNat < 127) :
    (UInt8.ofNat c.toNat).toNat = c.toNat := by
  rw [UInt8.toNat_ofNat']
  exact Nat.mod_eq_of_lt (by omega)

theorem plain_of_printableAscii (hpayload : PrintableAscii payload) :
    plain (payload.map fun c ↦ UInt8.ofNat c.toNat) = payload.map .char := by
  rw [plain, List.map_map]
  refine List.map_congr_left fun c hc ↦ ?_
  rw [Function.comp_apply, toNat_ofNat_of_printable (hpayload c hc), Char.ofNat_toNat]

theorem escapeByte_mem_iff (hpayload : PrintableAscii payload) :
    escapeByte ∈ payload.map (fun c ↦ UInt8.ofNat c.toNat) ↔ '{' ∈ payload := by
  rw [List.mem_map]
  refine ⟨?_, fun h ↦ ⟨'{', h, rfl⟩⟩
  rintro ⟨c, hc, heq⟩
  have hvalue := congrArg UInt8.toNat heq
  rw [toNat_ofNat_of_printable (hpayload c hc)] at hvalue
  have hbrace : c = '{' := Char.toNat_inj.mp hvalue
  exact hbrace ▸ hc

/-- Code set B, and then the payload. -/
theorem readData_start_iff (hpayload : PrintableAscii payload) :
    readData (NativeBarcode.code128.start ++ payload.flatMap String.utf8EncodeChar) = some (payload.map .char) ↔
      '{' ∉ payload := by
  have hset : ∀ byte ∈ payload.map (fun c ↦ UInt8.ofNat c.toNat), 0x20 ≤ byte ∧ byte < 0x80 := by
    intro byte hbyte
    obtain ⟨c, hc, rfl⟩ := List.mem_map.mp hbyte
    have hrange := hpayload c hc
    rw [UInt8.le_iff_toNat_le, UInt8.lt_iff_toNat_lt, toNat_ofNat_of_printable hrange]
    exact ⟨hrange.1, by have := hrange.2; change c.toNat < 128; omega⟩
  rw [utf8_of_printableAscii hpayload, ← escapeByte_mem_iff hpayload, ← readSymbols_self_iff hset,
    plain_of_printableAscii hpayload]
  rfl

/-- Assumes: printable ASCII characters. The command carries the payload exactly when there is no brace in it and the
number of data bytes, two for the code set among them, fits a byte. -/
theorem native_code128_carries_iff (hpayload : PrintableAscii payload) (height moduleWidth : UInt8) :
    CarriesCode128 height moduleWidth payload (EscPos.nativeBarcode .code128 payload height moduleWidth) ↔
      '{' ∉ payload ∧ payload.length ≤ 253 := by
  have hlength : (NativeBarcode.code128.start ++ payload.flatMap String.utf8EncodeChar).length = payload.length + 2 := by
    rw [utf8_of_printableAscii hpayload, List.length_append, List.length_map, add_comm]
    rfl
  rw [carriesCode128_iff, readData_start_iff hpayload, hlength]
  exact and_congr_right fun _ ↦ by omega

/-- A code that types a text. -/
theorem plain_text_is_carried :
    PrintableAscii (encodeControls [.insert, .value (.text (text "milk, bread"))]) ∧
      CarriesCode128 64 2 (encodeControls [.insert, .value (.text (text "milk, bread"))])
        (EscPos.nativeBarcode .code128 (encodeControls [.insert, .value (.text (text "milk, bread"))]) 64 2) :=
  ⟨by decide, (native_code128_carries_iff (by decide) 64 2).mpr (by decide)⟩

/-- The brace of a text selects nothing, and the code cannot be drawn. -/
theorem braced_text_is_not_carried :
    nativeKind receiptPrinter ⟨.startPause, encodeControls [.insert, .value (.text (text "a\x7bb"))], .code128, none, false⟩
        = some .code128 ∧
      PrintableAscii (encodeControls [.insert, .value (.text (text "a\x7bb"))]) ∧
      ¬ CarriesCode128 64 2 (encodeControls [.insert, .value (.text (text "a\x7bb"))])
        (EscPos.nativeBarcode .code128 (encodeControls [.insert, .value (.text (text "a\x7bb"))]) 64 2) := by
  refine ⟨by decide, by decide, fun hcarries ↦ ?_⟩
  have hread := ((carriesCode128_iff 64 2 _).mp hcarries).1
  exact absurd hread (by decide)

end Payload

end Taskologic.Print
