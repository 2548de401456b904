import Taskologic.Core.ControlCodec
import Taskologic.Core.Detector

/-!
# A control code through the detector and back

Printing a list of commands, typing the payload into the detector and parsing the body it delivers
are three layers; `RoundTrips` says that together they are the identity. They are exactly for the
lists of commands that are `FrameSafe` (`roundTrips_iff_frameSafe`): no free text contains the frame
delimiter `--` or ends in a dash, and the last command is not the dash key. On any other list the
first two dashes in a row close the frame early, and what is left of the body parses to something
else or not at all.
-/

set_option autoImplicit false
set_option relaxedAutoImplicit false

namespace Taskologic.Core

open Library

/-! ### Bodies that hold no frame delimiter -/

/-- No free text contains the frame delimiter or ends in a dash, and the last command is not the
dash key. -/
def FrameSafe (commands : List Control) : Prop :=
  (∀ t, Control.value (.text t) ∈ commands → Framable frameChar t) ∧
    commands.getLast? ≠ some (.key frameChar)

/-- A command that is not text prints no frame delimiter of its own. -/
theorem not_infix_encode {command : Control} (hcommand : command.Printable)
    (htext : ¬ command.IsText) : ¬ [frameChar, frameChar] <:+: command.encode := by
  intro hrun
  by_cases hkey : command = .key frameChar
  · subst hkey
    revert hrun
    decide
  · exact Control.not_mem_encode hcommand htext (by decide) hkey
      (hrun.subset List.mem_cons_self)

/-- One command is framable unless it is text that is not or the dash key. -/
theorem framable_encode_iff {command : Control} (hcommand : command.Printable) :
    Framable frameChar command.encode ↔ FrameSafe [command] := by
  by_cases htext : command.IsText
  · cases command with
    | value v =>
      cases v with
      | text t =>
        have hencode : (Control.value (.text t)).encode = 'V' :: '.' :: t := rfl
        rw [hencode, framable_cons_of_ne (by decide), framable_cons_of_ne (by decide)]
        simp [FrameSafe]
      | _ => exact htext.elim
    | _ => exact htext.elim
  · have hnotText : ∀ t, command ≠ .value (.text t) := by
      rintro t rfl
      exact htext trivial
    by_cases hkey : command = .key frameChar
    · subst hkey
      simp only [FrameSafe, List.getLast?_singleton, ne_eq, not_true_eq_false, and_false, iff_false]
      decide
    · have hdash := Control.not_mem_encode hcommand htext (x := frameChar) (by decide) hkey
      have hsafe : FrameSafe [command] := by
        refine ⟨fun t ht ↦ absurd (List.mem_singleton.mp ht).symm (hnotText t), ?_⟩
        simpa using hkey
      exact iff_of_true (framable_of_not_mem hdash) hsafe

/-- A printed body is framable exactly for a safe list of commands. -/
theorem framable_encodeBody_iff {commands : List Control} (hcommands : WellFormed commands) :
    Framable frameChar (encodeBody commands) ↔ FrameSafe commands := by
  induction commands with
  | nil => exact absurd rfl hcommands.nonempty
  | cons command commands ih =>
    have hcommand := hcommands.printable command List.mem_cons_self
    by_cases hlast : commands = []
    · subst hlast
      rw [encodeBody_singleton, framable_encode_iff hcommand]
    · obtain ⟨hrest, htext⟩ := hcommands.tail hlast
      rw [encodeBody_cons hlast, framable_append_cons_iff (by decide), ih hrest]
      rw [and_iff_right (not_infix_encode hcommand htext)]
      have htexts : ∀ t, Control.value (.text t) ∈ command :: commands ↔
          Control.value (.text t) ∈ commands := by
        intro t
        rw [List.mem_cons, or_iff_right]
        rintro rfl
        exact htext trivial
      obtain ⟨next, more, rfl⟩ := List.exists_cons_of_ne_nil hlast
      simp only [FrameSafe, htexts, List.getLast?_cons_cons]

/-! ### The round trip -/

/-- The keys a scanner sends for a control code: its prefix, the payload, and Enter if it is set up
to send one. -/
def scanKeys (d : ScanDetector) (payload : Text) : List ScanKey :=
  (d.scannerPrefix ++ payload).map .char ++ if d.enterTerminates then [.enter] else []

/-- The detector delivers one frame for the keys and nothing else, the frame's body parses to the
commands, and the detector is idle again. -/
def RoundTrips (d : ScanDetector) (commands : List Control) (keys : List (ScanKey × ℕ)) : Prop :=
  (∃ body, d.delivered keys = [.frame body] ∧ parseControls body = .ok commands) ∧
    (d.after keys).isIdle

/-- What was read early of one command that is not the last ends behind it. -/
theorem exists_eq_encode_append {command : Control} (hcommand : command.Printable)
    (htext : ¬ command.IsText) {early late rest : Text}
    (hsplit : early ++ frameChar :: frameChar :: late = command.encode ++ joinChar :: rest) :
    ∃ more, early = command.encode ++ joinChar :: more ∧
      more ++ frameChar :: frameChar :: late = rest := by
  rcases List.append_eq_append_iff.mp hsplit with ⟨middle, hencode, hdashes⟩ | ⟨more, rfl, hmore⟩
  · exfalso
    match middle, hdashes with
    | [], hdashes => exact absurd (List.cons.inj hdashes).1 (by decide)
    | [c], hdashes =>
      simp only [List.cons_append, List.nil_append, List.cons.injEq] at hdashes
      exact absurd hdashes.2.1 (by decide)
    | c :: c' :: middle, hdashes =>
      simp only [List.cons_append, List.cons.injEq] at hdashes
      obtain ⟨rfl, rfl, -⟩ := hdashes
      exact not_infix_encode hcommand htext ⟨early, middle, by simp [hencode]⟩
  · cases more with
    | nil => exact absurd (List.cons.inj hmore).1 (by decide)
    | cons c more =>
      obtain ⟨rfl, hrest⟩ := List.cons.inj hmore
      exact ⟨more, rfl, hrest.symm⟩

/-- A frame that is read from one printed command and parses to it is the whole command. -/
theorem eq_encode_of_parseControlsLoop {command : Control} (hcommand : command.Printable)
    {out : List Control} {early late : Text} (hearly : Framable frameChar early)
    (hsplit : early ++ frameChar :: frameChar :: late = command.encode ++ frameText)
    (hparse : parseControlsLoop out early = .ok (out ++ [command])) :
    early = command.encode := by
  by_cases hframable : Framable frameChar command.encode
  · exact hearly.eq_of_append hframable hsplit
  by_cases htext : command.IsText
  · -- the text was cut short, so it is another text
    obtain ⟨t, rfl⟩ : ∃ t, command = .value (.text t) := by
      cases command with
      | value v =>
        cases v with
        | text t => exact ⟨t, rfl⟩
        | _ => exact htext.elim
      | _ => exact htext.elim
    obtain ⟨cut, rfl⟩ : ∃ cut, early = textStart ++ cut := by
      change _ = 'V' :: '.' :: (t ++ frameText) at hsplit
      match early, hsplit with
      | [], hsplit => exact absurd (List.cons.inj hsplit).1 (by decide)
      | [c], hsplit =>
        simp only [List.cons_append, List.nil_append, List.cons.injEq] at hsplit
        exact absurd hsplit.2.1 (by decide)
      | c :: c' :: cut, hsplit =>
        simp only [List.cons_append, List.cons.injEq] at hsplit
        obtain ⟨rfl, rfl, -⟩ := hsplit
        exact ⟨cut, rfl⟩
    have hread : parseControlsLoop out (textStart ++ cut) = .ok (out ++ [.value (.text cut)]) :=
      parseControlsLoop_encode out (.value (.text cut)) trivial
    rw [hread] at hparse
    simp only [Outcome.ok.injEq, List.append_cancel_left_eq, List.cons.injEq, and_true,
      Control.value.injEq, Value.text.injEq] at hparse
    rw [hparse]
    rfl
  · -- the dash key lost its character
    have hkey : command = .key frameChar := by
      by_contra hkey
      exact hframable (framable_of_not_mem
        (Control.not_mem_encode hcommand htext (by decide) hkey))
    subst hkey
    change _ = ['K', frameChar, frameChar, frameChar] at hsplit
    match early, hsplit with
    | [], hsplit => exact absurd (List.cons.inj hsplit).1 (by decide)
    | [c], hsplit =>
      obtain rfl : c = 'K' := (List.cons.inj hsplit).1
      have hbad : parseControlsLoop out ['K'] = .err (.unknownCommand ['K']) := by
        rw [parseControlsLoop]
        rfl
      rw [hbad] at hparse
      cases hparse
    | [c, c'], hsplit =>
      simp only [List.cons_append, List.nil_append, List.cons.injEq] at hsplit
      obtain ⟨rfl, rfl, -⟩ := hsplit
      rfl
    | c :: c' :: c'' :: more, hsplit =>
      have hlength := congrArg List.length hsplit
      simp only [List.length_append, List.length_cons, List.length_nil] at hlength
      omega

/-- A frame that is read from a printed body and parses to the same commands is the whole body. -/
theorem eq_encodeBody_of_parseControlsLoop {commands : List Control}
    (hcommands : WellFormed commands) {out : List Control} {early late : Text}
    (hearly : Framable frameChar early)
    (hsplit : early ++ frameChar :: frameChar :: late = encodeBody commands ++ frameText)
    (hparse : parseControlsLoop out early = .ok (out ++ commands)) :
    early = encodeBody commands := by
  induction commands generalizing out early with
  | nil => exact absurd rfl hcommands.nonempty
  | cons command commands ih =>
    have hcommand := hcommands.printable command List.mem_cons_self
    by_cases hlast : commands = []
    · subst hlast
      rw [encodeBody_singleton] at hsplit ⊢
      exact eq_encode_of_parseControlsLoop hcommand hearly hsplit hparse
    · obtain ⟨hrest, htext⟩ := hcommands.tail hlast
      rw [encodeBody_cons hlast, List.append_assoc, List.cons_append] at hsplit
      obtain ⟨more, rfl, hmore⟩ := exists_eq_encode_append hcommand htext hsplit
      rw [parseControlsLoop_encode_append out more hcommand htext] at hparse
      have hframable := ((framable_append_cons_iff (by decide)).mp hearly).2
      rw [encodeBody_cons hlast,
        ih hrest hframable hmore (by rw [hparse, List.append_assoc, List.singleton_append])]

/-- The round trip is the identity exactly on safe lists of commands. -/
theorem roundTrips_iff_frameSafe {d : ScanDetector} (hidle : d.isIdle) {commands : List Control}
    (hparse : ∃ body, parseControls body = .ok commands) {keys : List (ScanKey × ℕ)}
    (hkeys : keys.map Prod.fst = scanKeys d (encodeControls commands)) (htime : d.InTime keys) :
    RoundTrips d commands keys ↔ FrameSafe commands := by
  obtain ⟨original, horiginal⟩ := hparse
  have hcommands := wellFormed_of_parseControls horiginal
  have hstream : keys.map Prod.fst =
      (d.scannerPrefix ++ ScanDetector.frameStart).map ScanKey.char ++
        ((encodeBody commands ++ frameText).map .char ++
          if d.enterTerminates then [.enter] else []) := by
    rw [hkeys]
    simp [scanKeys, encodeControls, framed, ScanDetector.frameStart, frameText]
  obtain ⟨rest, reader, hrest, hframe, htimeRest, hdelivered, hafter⟩ :=
    ScanDetector.exists_inFrame_of_isIdle hidle hstream htime
  have htyped : ScanDetector.typed rest = encodeBody commands ++ frameText := by
    rw [ScanDetector.typed, hrest]
    split <;> simp
  obtain ⟨early, late, hread, -, hsplit, hiff⟩ :=
    exists_unframe frameChar (encodeBody commands) []
  have hearly : Framable frameChar early := (unframe_eq_some_iff.mp hread).2
  obtain ⟨before, now, behind, closed, rfl, hlate, hclosed, htimeBehind, hframeDelivered,
    hframeAfter⟩ := hframe.delivered_of_unframe_eq_some htimeRest (htyped ▸ hread)
  rw [RoundTrips, hdelivered, hafter, hframeDelivered, hframeAfter,
    ← framable_encodeBody_iff hcommands, ← hiff, List.nil_append]
  constructor
  · rintro ⟨⟨body, hbody, hparse⟩, -⟩
    obtain ⟨rfl, -⟩ : early = body ∧ closed.delivered behind = [] := by simpa using hbody
    have hloop : parseControlsLoop [] early = .ok ([] ++ commands) := by
      simp only [parseControls] at hparse
      split at hparse
      · cases hparse
      · exact hparse
    exact eq_encodeBody_of_parseControlsLoop hcommands hearly hsplit hloop
  · rintro rfl
    have hnil : late = [] := by simpa using hsplit
    have hsuffix : behind.map Prod.fst <:+ if d.enterTerminates then [.enter] else [] := by
      have hend : behind.map Prod.fst <:+
          ((encodeBody commands ++ [frameChar]).map ScanKey.char) ++
            .char frameChar :: if d.enterTerminates then [.enter] else [] := by
        have hshape : (encodeBody commands ++ frameText).map ScanKey.char =
            (encodeBody commands ++ [frameChar]).map ScanKey.char ++ [.char frameChar] := by
          simp [frameText]
        rw [List.append_cons, ← hshape, ← hrest, List.map_append]
        exact (List.suffix_cons _ _).trans (List.suffix_append _ _)
      exact ScanDetector.suffix_of_charsOf_eq_nil hend (hlate.trans hnil)
    obtain ⟨hsilent, hidleAfter⟩ := hclosed.delivered_eq_nil htimeBehind hsuffix
    exact ⟨⟨_, by rw [hsilent], parseControls_encodeBody hcommands⟩, hidleAfter⟩

/-- A scanner that sends a prefix and Enter carries the code for moving a task to the left. -/
theorem roundTrips_moveLeft :
    let d := (ScanDetector.new.withPrefix (text "A-")).withEnterTerminates true
    RoundTrips d [.moveLeft] (ScanDetector.atOnce (scanKeys d (encodeControls [.moveLeft]))) := by
  refine (roundTrips_iff_frameSafe (by decide) ⟨text "ML", ?_⟩ (by decide) (by decide)).mpr ?_
  · exact parseControls_encodeBody (.singleton .moveLeft (by decide))
  · exact ⟨by simp, by decide⟩

/-- The code for the dash key does not: the frame closes behind `K` and a dash is left over. -/
theorem not_roundTrips_dash :
    let d := ScanDetector.new
    let keys := ScanDetector.atOnce (scanKeys d (encodeControls [.key '-']))
    d.isIdle ∧ parseControls (text "K-") = .ok [.key '-'] ∧
      keys.map Prod.fst = scanKeys d (encodeControls [.key '-']) ∧ d.InTime keys ∧
      ¬ RoundTrips d [.key '-'] keys := by
  refine ⟨by decide, ?_, by decide, by decide, ?_⟩
  · rw [parseControls, parseControlsLoop]
    rfl
  · rintro ⟨-, hidle⟩
    exact absurd hidle (by decide)

end Taskologic.Core
