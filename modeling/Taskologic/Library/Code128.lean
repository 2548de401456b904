import Mathlib.Data.List.Count
import Mathlib.Tactic

/-!
# Data of CODE128

The data of a CODE128 barcode is a language with an escape. A brace and the byte after it select a code set, stand for
a function character, shift one character to the other set, or are the brace itself when the byte is a brace too.
`readSymbols` reads such data in a code set, `readData` all of it with the code set it begins with.

A brace that is read took two (`two_mul_count_le`), so no data with a brace in it reads as itself: in code set B data
reads as itself exactly when it has none (`readSymbols_self_iff`).
-/

set_option autoImplicit false
set_option relaxedAutoImplicit false

namespace Taskologic.Library

/-- Which characters the bytes of the data are. -/
inductive CodeSet where
  | a
  | b
  | c
  deriving DecidableEq, Repr

/-- What a scanner reads. -/
inductive BarSymbol where
  | char (c : Char)
  | function (n : ℕ)
  deriving DecidableEq, Repr

/-- What a brace and the byte after it mean, other than the brace itself. -/
inductive Escape where
  | select (set : CodeSet)
  | shift
  | function (n : ℕ)
  deriving DecidableEq, Repr

namespace CodeSet

/-- The set of a shifted character. Code set C has no shift. -/
def shifted : CodeSet → Option CodeSet
  | a => some b
  | b => some a
  | c => none

/-- The characters of one byte: two digits in code set C. -/
def read (set : CodeSet) (byte : UInt8) : Option (List BarSymbol) :=
  match set with
  | a => if byte < 0x60 then some [.char (Char.ofNat byte.toNat)] else none
  | b => if 0x20 ≤ byte ∧ byte < 0x80 then some [.char (Char.ofNat byte.toNat)] else none
  | c =>
    if byte < 100 then
      some [.char (Char.ofNat (48 + byte.toNat / 10)), .char (Char.ofNat (48 + byte.toNat % 10))]
    else none

end CodeSet

/-- The byte that begins an escape. -/
def escapeByte : UInt8 := 0x7B

def Escape.ofByte (byte : UInt8) : Option Escape :=
  if byte = 0x41 then some (.select .a)
  else if byte = 0x42 then some (.select .b)
  else if byte = 0x43 then some (.select .c)
  else if byte = 0x53 then some .shift
  else if 0x31 ≤ byte ∧ byte ≤ 0x34 then some (.function (byte.toNat - 0x30))
  else none

/-- Data read in a code set, with the set of the next character. Only code set B has a brace. -/
def readSymbols (set next : CodeSet) : List UInt8 → Option (List BarSymbol)
  | [] => some []
  | [byte] => if byte = escapeByte then none else next.read byte
  | byte :: after :: rest =>
    if byte = escapeByte then
      if after = escapeByte then
        if next = .b then (readSymbols set set rest).map (.char '{' :: ·) else none
      else
        match Escape.ofByte after with
        | none => none
        | some (.select chosen) => readSymbols chosen chosen rest
        | some .shift => set.shifted.bind fun other ↦ readSymbols set other rest
        | some (.function n) => (readSymbols set set rest).map (.function n :: ·)
    else
      (next.read byte).bind fun first ↦ (readSymbols set set (after :: rest)).map (first ++ ·)

/-- All data of a code, which begins with its code set. -/
def readData : List UInt8 → Option (List BarSymbol)
  | byte :: after :: rest =>
    if byte = escapeByte then
      match Escape.ofByte after with
      | some (.select chosen) => readSymbols chosen chosen rest
      | _ => none
    else none
  | _ => none

section Braces

variable {set next : CodeSet} {bytes : List UInt8} {symbols : List BarSymbol}

theorem toNat_ofNat_byte {n : ℕ} (hn : n < 256) : (Char.ofNat n).toNat = n := by
  have hvalid : n.isValidChar := .inl (by omega)
  rw [Char.ofNat, dif_pos hvalid]
  rfl

/-- Only an escape reads as a brace. -/
theorem CodeSet.brace_not_mem_read {byte : UInt8} (hbyte : byte ≠ escapeByte) (h : set.read byte = some symbols) :
    BarSymbol.char '{' ∉ symbols := by
  have hother (n : ℕ) (hn : n < 256) (hne : n ≠ 123) : BarSymbol.char '{' ≠ .char (Char.ofNat n) := by
    intro heq
    have hvalue := congrArg Char.toNat (BarSymbol.char.inj heq)
    rw [toNat_ofNat_byte hn] at hvalue
    exact hne hvalue.symm
  have hself := hother byte.toNat byte.toNat_lt fun hn ↦ hbyte (UInt8.toNat_inj.mp hn)
  cases set with
  | a =>
    rw [read] at h
    split_ifs at h
    cases h
    simpa using hself
  | b =>
    rw [read] at h
    split_ifs at h
    cases h
    simpa using hself
  | c =>
    rw [read] at h
    split_ifs at h with hlt
    cases h
    have hvalue : byte.toNat < 100 := UInt8.lt_iff_toNat_lt.mp hlt
    have htens := hother (48 + byte.toNat / 10) (by omega) (by omega)
    have hones := hother (48 + byte.toNat % 10) (by omega) (by omega)
    simp only [List.mem_cons, List.not_mem_nil, or_false, not_or]
    exact ⟨htens, hones⟩

/-- A brace that is read took two. -/
theorem two_mul_count_le (h : readSymbols set next bytes = some symbols) :
    2 * symbols.count (.char '{') ≤ bytes.count escapeByte := by
  fun_induction readSymbols set next bytes generalizing symbols with
  | case1 =>
    cases h
    simp
  | case2 => cases h
  | case3 set next byte hbyte =>
    rw [List.count_eq_zero_of_not_mem (CodeSet.brace_not_mem_read hbyte h)]
    exact Nat.zero_le _
  | case4 set rest ih =>
    obtain ⟨more, hmore, rfl⟩ := Option.map_eq_some_iff.mp h
    have := ih hmore
    rw [List.count_cons_self, List.count_cons_self, List.count_cons_self]
    omega
  | case5 => cases h
  | case6 => cases h
  | case7 set next after rest _ chosen _ ih =>
    exact (ih h).trans ((List.count_le_count_cons ..).trans (List.count_le_count_cons ..))
  | case8 set next after rest _ _ ih =>
    obtain ⟨other, -, hmore⟩ := Option.bind_eq_some_iff.mp h
    exact (ih other hmore).trans ((List.count_le_count_cons ..).trans (List.count_le_count_cons ..))
  | case9 set next after rest _ n _ ih =>
    obtain ⟨more, hmore, rfl⟩ := Option.map_eq_some_iff.mp h
    rw [List.count_cons_of_ne (by simp)]
    exact (ih hmore).trans ((List.count_le_count_cons ..).trans (List.count_le_count_cons ..))
  | case10 set next byte after rest hbyte ih =>
    obtain ⟨first, hfirst, hrest⟩ := Option.bind_eq_some_iff.mp h
    obtain ⟨more, hmore, rfl⟩ := Option.map_eq_some_iff.mp hrest
    have hnone := List.count_eq_zero_of_not_mem (CodeSet.brace_not_mem_read hbyte hfirst)
    rw [List.count_append, hnone, zero_add]
    exact (ih hmore).trans (List.count_le_count_cons ..)

/-- The characters that stand for themselves in code set B. -/
def plain (bytes : List UInt8) : List BarSymbol := bytes.map fun byte ↦ .char (Char.ofNat byte.toNat)

theorem count_plain (bytes : List UInt8) : (plain bytes).count (.char '{') = bytes.count escapeByte := by
  have hchar (byte : UInt8) : BarSymbol.char (Char.ofNat byte.toNat) = .char '{' ↔ byte = escapeByte := by
    refine ⟨fun heq ↦ ?_, fun heq ↦ by subst heq; rfl⟩
    have hvalue := congrArg Char.toNat (BarSymbol.char.inj heq)
    rw [toNat_ofNat_byte byte.toNat_lt] at hvalue
    exact UInt8.toNat_inj.mp hvalue
  induction bytes with
  | nil => rfl
  | cons byte rest ih =>
    rw [plain, List.map_cons, List.count_cons, List.count_cons, ← ih, plain]
    simp only [beq_iff_eq, hchar]

theorem readSymbols_of_not_mem (hset : ∀ byte ∈ bytes, 0x20 ≤ byte ∧ byte < 0x80) (hbrace : escapeByte ∉ bytes) :
    readSymbols .b .b bytes = some (plain bytes) := by
  have hread {byte : UInt8} (hbyte : 0x20 ≤ byte ∧ byte < 0x80) :
      CodeSet.b.read byte = some [.char (Char.ofNat byte.toNat)] := if_pos hbyte
  induction bytes with
  | nil => rfl
  | cons byte rest ih =>
    have hne : byte ≠ escapeByte := fun heq ↦ hbrace (heq ▸ List.mem_cons_self)
    have hbyte := hread (hset byte List.mem_cons_self)
    have hrest := ih (fun b hb ↦ hset b (List.mem_cons_of_mem byte hb)) fun hb ↦ hbrace (List.mem_cons_of_mem byte hb)
    cases rest with
    | nil => rw [readSymbols, if_neg hne, hbyte]; rfl
    | cons after rest =>
      rw [readSymbols, if_neg hne, hbyte, Option.bind_some, hrest]
      rfl

/-- Assumes: bytes of code set B. They read as themselves exactly when none is a brace. -/
theorem readSymbols_self_iff (hset : ∀ byte ∈ bytes, 0x20 ≤ byte ∧ byte < 0x80) :
    readSymbols .b .b bytes = some (plain bytes) ↔ escapeByte ∉ bytes := by
  refine ⟨fun h ↦ ?_, readSymbols_of_not_mem hset⟩
  have hcount := two_mul_count_le h
  rw [count_plain] at hcount
  exact List.count_eq_zero.mp (by omega)

end Braces

end Taskologic.Library
