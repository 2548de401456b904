import Taskologic.Library.Table

/-!
# Documents

A document is a tree of arrays and objects over scalars (`Json`). Some of its numbers are names of something
else, and there are two ways to say which. A `Shape` says it by the place of a number in the document. A table
of keys says it by the key the number is under: one of `one` for a single name, one of `many` for a list of
them.

Where the keys tell the names of a shape apart from everything else (`Shape.isKeyed`), replacing the names by
key is replacing them by place: `Json.remap_eq_rename`. Replacing by place is a substitution, all names at
once: `Json.ids_rename`, `Json.rename_eq_rename_iff`.
-/

set_option autoImplicit false
set_option relaxedAutoImplicit false

namespace Taskologic.Library

universe u

/-- A document. Numbers come as they are stored: those from zero on apart from those below, of which
`negative n` is `-n - 1`. -/
inductive Json (α : Type u) where
  | null
  | bool (value : Bool)
  | number (value : ℕ)
  | negative (value : ℕ)
  | string (value : α)
  | array (entries : List (Json α))
  | object (fields : List (α × Json α))

/-- What a document looks like: where its names are, and which keys an object may have. -/
inductive Shape (α : Type u) where
  /-- Nothing that is a name. -/
  | scalar
  | one
  | many
  | list (entry : Shape α)
  | record (fields : List (α × Shape α))

/-- What stands under a key. -/
def valueAt? {α : Type u} {β : Type*} [DecidableEq α] (fields : List (α × β)) (key : α) : Option β :=
  (fields.find? fun entry ↦ entry.1 == key).map Prod.snd

/-- Puts another value under a key that is there. -/
def setAt {α : Type u} {β : Type*} [DecidableEq α] (fields : List (α × β)) (key : α) (value : β) : List (α × β) :=
  fields.map fun field ↦ if field.1 = key then (field.1, value) else field

variable {α : Type u}

namespace Json

/-- Induction over arrays and objects. -/
@[induction_eliminator]
theorem induct {motive : Json α → Prop} (null : motive null) (bool : ∀ value, motive (bool value))
    (number : ∀ value, motive (number value)) (negative : ∀ value, motive (negative value))
    (string : ∀ value, motive (string value))
    (array : ∀ entries, (∀ entry ∈ entries, motive entry) → motive (array entries))
    (object : ∀ fields, (∀ field ∈ fields, motive field.2) → motive (object fields)) : ∀ v, motive v :=
  @Json.rec α motive (fun entries ↦ ∀ entry ∈ entries, motive entry)
    (fun fields ↦ ∀ field ∈ fields, motive field.2) (fun field ↦ motive field.2)
    null bool number negative string array object
    (fun _ h ↦ nomatch h)
    (fun _ _ hentry hrest ↦ List.forall_mem_cons.mpr ⟨hentry, hrest⟩)
    (fun _ h ↦ nomatch h)
    (fun _ _ hfield hrest ↦ List.forall_mem_cons.mpr ⟨hfield, hrest⟩)
    (fun _ _ h ↦ h)

/-! ### Names by key -/

def numbers : Json α → List ℕ
  | number n => [n]
  | _ => []

def isNumber : Json α → Bool
  | number _ => true
  | _ => false

/-- An array of one number or more, and of nothing else. -/
def isNumberList : Json α → Bool
  | array entries => !entries.isEmpty && entries.all isNumber
  | _ => false

def numbersOfEach : Json α → List ℕ
  | array entries => entries.flatMap numbers
  | _ => []

def swap (f : ℕ → ℕ) : Json α → Json α
  | number n => number (f n)
  | v => v

def swapEach (f : ℕ → ℕ) : Json α → Json α
  | array entries => array (entries.map (swap f))
  | v => v

theorem numbers_swap (f : ℕ → ℕ) (v : Json α) : numbers (swap f v) = (numbers v).map f := by
  cases v <;> rfl

theorem numbersOfEach_swapEach (f : ℕ → ℕ) (v : Json α) :
    numbersOfEach (swapEach f v) = (numbersOfEach v).map f := by
  cases v with
  | array entries =>
    simp [numbersOfEach, swapEach, List.flatMap_map, List.map_flatMap, numbers_swap]
  | _ => rfl

theorem swap_congr {f g : ℕ → ℕ} {v : Json α} (h : ∀ n ∈ numbers v, f n = g n) : swap f v = swap g v := by
  cases v with
  | number n => exact congrArg number (h n (List.mem_singleton.mpr rfl))
  | _ => rfl

section

variable [DecidableEq α] (one many : List α)

mutual

/-- Replaces every number under a key for one name, and every number of a list of numbers under a key for
many. Everything else is walked into. -/
def remap (f : ℕ → ℕ) : Json α → Json α
  | array entries => array (remapEntries f entries)
  | object fields => object (remapFields f fields)
  | v => v

def remapEntries (f : ℕ → ℕ) : List (Json α) → List (Json α)
  | [] => []
  | entry :: rest => remap f entry :: remapEntries f rest

def remapFields (f : ℕ → ℕ) : List (α × Json α) → List (α × Json α)
  | [] => []
  | (key, v) :: rest =>
    (key, if key ∈ one then swap f v
      else if isNumberList v ∧ key ∈ many then swapEach f v
      else remap f v) :: remapFields f rest

end

mutual

/-- The numbers that `remap` replaces. -/
def collect : Json α → List ℕ
  | array entries => collectEntries entries
  | object fields => collectFields fields
  | _ => []

def collectEntries : List (Json α) → List ℕ
  | [] => []
  | entry :: rest => collect entry ++ collectEntries rest

def collectFields : List (α × Json α) → List ℕ
  | [] => []
  | (key, v) :: rest =>
    (if key ∈ one then numbers v
      else if isNumberList v ∧ key ∈ many then numbersOfEach v
      else collect v) ++ collectFields rest

end

end

/-! ### Names by place -/

section

variable [DecidableEq α]

mutual

/-- The document has the shape. What may be missing may also be null, and a variant without fields is a
string. -/
def conforms : Shape α → Json α → Bool
  | _, null => true
  | .scalar, bool _ | .scalar, number _ | .scalar, negative _ | .scalar, string _ => true
  | .one, number _ => true
  | .many, array entries => entries.all isNumber
  | .list entry, array entries => conformsEach entry entries
  | .record _, string _ => true
  | .record shapes, object fields => conformsFields shapes fields
  | _, _ => false

def conformsEach (shape : Shape α) : List (Json α) → Bool
  | [] => true
  | entry :: rest => conforms shape entry && conformsEach shape rest

def conformsFields (shapes : List (α × Shape α)) : List (α × Json α) → Bool
  | [] => true
  | (key, v) :: rest =>
    (match valueAt? shapes key with
      | some shape => conforms shape v
      | none => false) && conformsFields shapes rest

end

mutual

/-- Replaces every name by another. -/
def rename (f : ℕ → ℕ) : Shape α → Json α → Json α
  | .one, v => swap f v
  | .many, v => swapEach f v
  | .list entry, array entries => array (renameEach f entry entries)
  | .record shapes, object fields => object (renameFields f shapes fields)
  | _, v => v

def renameEach (f : ℕ → ℕ) (shape : Shape α) : List (Json α) → List (Json α)
  | [] => []
  | entry :: rest => rename f shape entry :: renameEach f shape rest

def renameFields (f : ℕ → ℕ) (shapes : List (α × Shape α)) : List (α × Json α) → List (α × Json α)
  | [] => []
  | (key, v) :: rest =>
    (key, match valueAt? shapes key with
      | some shape => rename f shape v
      | none => v) :: renameFields f shapes rest

end

mutual

/-- The names of a document. -/
def ids : Shape α → Json α → List ℕ
  | .one, v => numbers v
  | .many, v => numbersOfEach v
  | .list entry, array entries => idsEach entry entries
  | .record shapes, object fields => idsFields shapes fields
  | _, _ => []

def idsEach (shape : Shape α) : List (Json α) → List ℕ
  | [] => []
  | entry :: rest => ids shape entry ++ idsEach shape rest

def idsFields (shapes : List (α × Shape α)) : List (α × Json α) → List ℕ
  | [] => []
  | (key, v) :: rest =>
    (match valueAt? shapes key with
      | some shape => ids shape v
      | none => []) ++ idsFields shapes rest

end

end

end Json

namespace Shape

/-- Only walked into: not a name, or a list of names, itself. -/
def isWalked : Shape α → Bool
  | one | many => false
  | _ => true

/-- Never a number. -/
def isCompound : Shape α → Bool
  | scalar | one => false
  | _ => true

variable [DecidableEq α] (ones manys : List α)

/-- The key says what is under it. -/
def suits (key : α) : Shape α → Bool
  | one => decide (key ∈ ones)
  | many => decide (key ∉ ones ∧ key ∈ manys)
  | list entry => decide (key ∉ ones ∧ (key ∈ manys → entry.isCompound))
  | scalar | record _ => decide (key ∉ ones)

mutual

/-- Names are under the keys for them, and nothing else is. -/
def isKeyed : Shape α → Bool
  | list entry => entry.isWalked && isKeyed entry
  | record fields => isKeyedFields fields
  | _ => true

def isKeyedFields : List (α × Shape α) → Bool
  | [] => true
  | (key, shape) :: rest => shape.suits ones manys key && isKeyed shape && isKeyedFields rest

end

theorem isKeyedFields_eq_true {fields : List (α × Shape α)} :
    isKeyedFields ones manys fields = true ↔
      ∀ field ∈ fields, field.2.suits ones manys field.1 = true ∧ isKeyed ones manys field.2 = true := by
  induction fields with
  | nil => simp [isKeyedFields]
  | cons field rest ih => simp [isKeyedFields, ih, and_assoc]

end Shape

/-- What is found under a key is there. -/
theorem mem_of_valueAt? {β : Type*} [DecidableEq α] {fields : List (α × β)} {key : α} {value : β}
    (h : valueAt? fields key = some value) : (key, value) ∈ fields := by
  obtain ⟨⟨found, _⟩, hfound, rfl⟩ := Option.map_eq_some_iff.mp h
  have hkey : found = key := by simpa using List.find?_some hfound
  exact hkey ▸ List.mem_of_find?_eq_some hfound

theorem valueAt?_cons {β : Type*} [DecidableEq α] (first key : α) (value : β) (fields : List (α × β)) :
    valueAt? ((first, value) :: fields) key = if first = key then some value else valueAt? fields key := by
  rw [valueAt?, List.find?_cons]
  by_cases hkey : first = key
  · simp [hkey]
  · simp [beq_eq_false_iff_ne.mpr hkey, hkey, valueAt?]

/-- Where no key is there twice, what is there is what is found. -/
theorem valueAt?_eq_some_iff {β : Type*} [DecidableEq α] {fields : List (α × β)} {key : α} {value : β}
    (hkeys : Keyed Prod.fst fields) : valueAt? fields key = some value ↔ (key, value) ∈ fields := by
  refine ⟨mem_of_valueAt?, fun hmem ↦ ?_⟩
  rw [valueAt?, hkeys.find?_eq_some_iff.mpr ⟨hmem, rfl⟩, Option.map_some]

theorem valueAt?_eq_none_iff {β : Type*} [DecidableEq α] {fields : List (α × β)} {key : α} :
    valueAt? fields key = none ↔ ∀ value, (key, value) ∉ fields := by
  rw [valueAt?, Option.map_eq_none_iff, List.find?_eq_none]
  constructor
  · exact fun h value hmem ↦ h _ hmem (beq_self_eq_true key)
  · intro h entry hentry hkey
    exact h entry.2 (eq_of_beq hkey ▸ hentry)

theorem valueAt?_setAt {β : Type*} [DecidableEq α] (fields : List (α × β)) (key : α) (value : β) :
    valueAt? (setAt fields key value) key = (valueAt? fields key).map fun _ ↦ value := by
  have hkeep : ∀ field : α × β, Prod.fst (field.1, value) = Prod.fst field := fun _ ↦ rfl
  have hfind := find?_map_ite hkeep fields key key
  rw [if_pos rfl] at hfind
  rw [valueAt?, setAt, hfind, valueAt?, Option.map_map, Option.map_map]
  rfl

namespace Json

variable [DecidableEq α]

/-! ### Entries and fields -/

section

variable (ones manys : List α) (f : ℕ → ℕ)

@[simp] theorem remapEntries_eq (entries : List (Json α)) :
    remapEntries ones manys f entries = entries.map (remap ones manys f) := by
  induction entries with
  | nil => rfl
  | cons entry rest ih => rw [remapEntries, ih, List.map_cons]

/-- What a field becomes that is under a key. -/
def remapUnder (key : α) (v : Json α) : Json α :=
  if key ∈ ones then swap f v
  else if isNumberList v ∧ key ∈ manys then swapEach f v
  else remap ones manys f v

@[simp] theorem remapFields_eq (fields : List (α × Json α)) :
    remapFields ones manys f fields = fields.map fun field ↦ (field.1, remapUnder ones manys f field.1 field.2) := by
  induction fields with
  | nil => rfl
  | cons field rest ih => rw [remapFields, ih, List.map_cons, remapUnder]

@[simp] theorem collectEntries_eq (entries : List (Json α)) :
    collectEntries ones manys entries = entries.flatMap (collect ones manys) := by
  induction entries with
  | nil => rfl
  | cons entry rest ih => rw [collectEntries, ih, List.flatMap_cons]

/-- The numbers replaced in a field that is under a key. -/
def collectUnder (key : α) (v : Json α) : List ℕ :=
  if key ∈ ones then numbers v
  else if isNumberList v ∧ key ∈ manys then numbersOfEach v
  else collect ones manys v

@[simp] theorem collectFields_eq (fields : List (α × Json α)) :
    collectFields ones manys fields = fields.flatMap fun field ↦ collectUnder ones manys field.1 field.2 := by
  induction fields with
  | nil => rfl
  | cons field rest ih => rw [collectFields, ih, List.flatMap_cons, collectUnder]

@[simp] theorem conformsEach_iff {shape : Shape α} {entries : List (Json α)} :
    conformsEach shape entries = true ↔ ∀ entry ∈ entries, conforms shape entry = true := by
  induction entries with
  | nil => simp [conformsEach]
  | cons entry rest ih => simp [conformsEach, ih]

@[simp] theorem conformsFields_iff {shapes : List (α × Shape α)} {fields : List (α × Json α)} :
    conformsFields shapes fields = true ↔
      ∀ field ∈ fields, ∃ shape, valueAt? shapes field.1 = some shape ∧ conforms shape field.2 = true := by
  induction fields with
  | nil => simp [conformsFields]
  | cons field rest ih =>
    rw [conformsFields, Bool.and_eq_true, ih, List.forall_mem_cons]
    cases valueAt? shapes field.1 <;> simp

theorem conforms_list {shape : Shape α} {entries : List (Json α)} :
    conforms (.list shape) (array entries) = true ↔ ∀ entry ∈ entries, conforms shape entry = true :=
  conformsEach_iff

theorem conforms_record {shapes : List (α × Shape α)} {fields : List (α × Json α)} :
    conforms (.record shapes) (object fields) = true ↔
      ∀ field ∈ fields, ∃ shape, valueAt? shapes field.1 = some shape ∧ conforms shape field.2 = true :=
  conformsFields_iff

@[simp] theorem renameEach_eq (shape : Shape α) (entries : List (Json α)) :
    renameEach f shape entries = entries.map (rename f shape) := by
  induction entries with
  | nil => rfl
  | cons entry rest ih => rw [renameEach, ih, List.map_cons]

/-- What a field becomes whose key has a shape, or has none. -/
def renameUnder (shape : Option (Shape α)) (v : Json α) : Json α :=
  shape.elim v fun shape ↦ rename f shape v

@[simp] theorem renameFields_eq (shapes : List (α × Shape α)) (fields : List (α × Json α)) :
    renameFields f shapes fields = fields.map fun field ↦ (field.1, renameUnder f (valueAt? shapes field.1) field.2) := by
  induction fields with
  | nil => rfl
  | cons field rest ih =>
    rw [renameFields, ih, List.map_cons]
    cases valueAt? shapes field.1 <;> rfl

@[simp] theorem idsEach_eq (shape : Shape α) (entries : List (Json α)) :
    idsEach shape entries = entries.flatMap (ids shape) := by
  induction entries with
  | nil => rfl
  | cons entry rest ih => rw [idsEach, ih, List.flatMap_cons]

/-- The names in a field whose key has a shape, or has none. -/
def idsUnder (shape : Option (Shape α)) (v : Json α) : List ℕ := shape.elim [] fun shape ↦ ids shape v

@[simp] theorem idsFields_eq (shapes : List (α × Shape α)) (fields : List (α × Json α)) :
    idsFields shapes fields = fields.flatMap fun field ↦ idsUnder (valueAt? shapes field.1) field.2 := by
  induction fields with
  | nil => rfl
  | cons field rest ih =>
    rw [idsFields, ih, List.flatMap_cons]
    cases valueAt? shapes field.1 <;> rfl

end

/-- The names under a key are names of the document. -/
theorem mem_ids_of_valueAt? {shapes : List (α × Shape α)} {fields : List (α × Json α)} {key : α}
    {shape : Shape α} {v : Json α} {n : ℕ} (hshape : valueAt? shapes key = some shape)
    (hv : valueAt? fields key = some v) (hn : n ∈ ids shape v) : n ∈ ids (.record shapes) (object fields) := by
  rw [ids, idsFields_eq]
  refine List.mem_flatMap.mpr ⟨_, mem_of_valueAt? hv, ?_⟩
  rwa [idsUnder, hshape]

/-! ### By key is by place -/

/-- What conforms to a shape that is never a number is no number. -/
theorem isNumber_of_conforms {shape : Shape α} {v : Json α} (hcompound : shape.isCompound = true)
    (hv : conforms shape v = true) : isNumber v = false := by
  cases v with
  | number => cases shape <;> simp_all [conforms, Shape.isCompound]
  | _ => rfl

section

variable {ones manys : List α} {shape : Shape α} {v : Json α} {key : α}

/-- A list of names has a shape of its own. -/
theorem isNumberList_of_conforms (hsuits : shape.suits ones manys key = true) (hwalked : shape.isWalked = true)
    (hv : conforms shape v = true) : ¬ (isNumberList v = true ∧ key ∈ manys) := by
  rintro ⟨hnumbers, hkey⟩
  obtain ⟨entries, rfl⟩ : ∃ entries, v = array entries := by
    cases v <;> simp [isNumberList] at hnumbers ⊢
  cases shape with
  | scalar | record => simp [conforms] at hv
  | one | many => simp [Shape.isWalked] at hwalked
  | list entry =>
    have hcompound : entry.isCompound = true := (of_decide_eq_true hsuits).2 hkey
    cases entries with
    | nil => simp [isNumberList] at hnumbers
    | cons first rest =>
      have hfirst := isNumber_of_conforms hcompound (conforms_list.mp hv first List.mem_cons_self)
      simp [isNumberList, hfirst] at hnumbers

/-- A shape that is only walked into is under no key for one name. -/
theorem notMem_of_suits (hsuits : shape.suits ones manys key = true) (hwalked : shape.isWalked = true) :
    key ∉ ones := by
  cases shape with
  | one | many => simp [Shape.isWalked] at hwalked
  | scalar | record => exact of_decide_eq_true hsuits
  | list => exact (of_decide_eq_true hsuits).1

/-- A list of names is a list of numbers, unless there are none. -/
theorem many_cases (hv : conforms Shape.many v = true) : v = null ∨ v = array [] ∨ isNumberList v = true := by
  cases v with
  | null => exact .inl rfl
  | array entries =>
    by_cases hnil : entries = []
    · exact .inr (.inl (hnil ▸ rfl))
    · exact .inr (.inr (by simpa [isNumberList, hnil, conforms] using hv))
  | _ => simp [conforms] at hv

/-- A field is replaced as its shape says, if what is only walked into is. -/
theorem remapUnder_eq (f : ℕ → ℕ) (hsuits : shape.suits ones manys key = true)
    (hv : conforms shape v = true) (hinner : shape.isWalked = true → remap ones manys f v = rename f shape v) :
    remapUnder ones manys f key v = rename f shape v := by
  by_cases hwalked : shape.isWalked = true
  · rw [remapUnder, if_neg (notMem_of_suits hsuits hwalked),
      if_neg (isNumberList_of_conforms hsuits hwalked hv), hinner hwalked]
  · cases shape with
    | one => rw [remapUnder, if_pos (of_decide_eq_true hsuits), rename]
    | many =>
      obtain ⟨hone, hmany⟩ := of_decide_eq_true hsuits
      rw [remapUnder, if_neg hone, rename]
      obtain rfl | rfl | hlist := many_cases hv
      · rfl
      · rfl
      · rw [if_pos ⟨hlist, hmany⟩]
    | _ => simp [Shape.isWalked] at hwalked

theorem collectUnder_eq (hsuits : shape.suits ones manys key = true) (hv : conforms shape v = true)
    (hinner : shape.isWalked = true → collect ones manys v = ids shape v) :
    collectUnder ones manys key v = ids shape v := by
  by_cases hwalked : shape.isWalked = true
  · rw [collectUnder, if_neg (notMem_of_suits hsuits hwalked),
      if_neg (isNumberList_of_conforms hsuits hwalked hv), hinner hwalked]
  · cases shape with
    | one => rw [collectUnder, if_pos (of_decide_eq_true hsuits), ids]
    | many =>
      obtain ⟨hone, hmany⟩ := of_decide_eq_true hsuits
      rw [collectUnder, if_neg hone, ids]
      obtain rfl | rfl | hlist := many_cases hv
      · rfl
      · rfl
      · rw [if_pos ⟨hlist, hmany⟩]
    | _ => simp [Shape.isWalked] at hwalked

/-- Where the keys say where the names are, replacing by key replaces the names and nothing else. -/
theorem remap_eq_rename (f : ℕ → ℕ) (hkeyed : shape.isKeyed ones manys = true) (hwalked : shape.isWalked = true)
    (hv : conforms shape v = true) : remap ones manys f v = rename f shape v := by
  induction v generalizing shape with
  | array entries ih =>
    cases shape with
    | list entry =>
      obtain ⟨hentry, hinner⟩ : entry.isWalked = true ∧ entry.isKeyed ones manys = true := by
        simpa [Shape.isKeyed] using hkeyed
      rw [remap, rename, remapEntries_eq, renameEach_eq]
      exact congrArg array (List.map_congr_left fun e he ↦ ih e he hinner hentry (conforms_list.mp hv e he))
    | scalar | record => simp [conforms] at hv
    | one | many => simp [Shape.isWalked] at hwalked
  | object fields ih =>
    cases shape with
    | record shapes =>
      rw [Shape.isKeyed, Shape.isKeyedFields_eq_true] at hkeyed
      rw [remap, rename, remapFields_eq, renameFields_eq]
      refine congrArg object (List.map_congr_left fun field hfield ↦ ?_)
      obtain ⟨inner, hinner, hconforms⟩ := conforms_record.mp hv field hfield
      obtain ⟨hsuits, hkeyed⟩ := hkeyed _ (mem_of_valueAt? hinner)
      rw [remapUnder_eq f hsuits hconforms fun hwalked ↦ ih field hfield hkeyed hwalked hconforms, hinner,
        renameUnder, Option.elim_some]
    | scalar | list => simp [conforms] at hv
    | one | many => simp [Shape.isWalked] at hwalked
  | _ => cases shape <;> first | rfl | simp [Shape.isWalked] at hwalked

/-- Where the keys say where the names are, the names are found by key. -/
theorem collect_eq_ids (hkeyed : shape.isKeyed ones manys = true) (hwalked : shape.isWalked = true)
    (hv : conforms shape v = true) : collect ones manys v = ids shape v := by
  induction v generalizing shape with
  | array entries ih =>
    cases shape with
    | list entry =>
      obtain ⟨hentry, hinner⟩ : entry.isWalked = true ∧ entry.isKeyed ones manys = true := by
        simpa [Shape.isKeyed] using hkeyed
      rw [collect, ids, collectEntries_eq, idsEach_eq]
      exact List.flatMap_congr fun e he ↦ ih e he hinner hentry (conforms_list.mp hv e he)
    | scalar | record => simp [conforms] at hv
    | one | many => simp [Shape.isWalked] at hwalked
  | object fields ih =>
    cases shape with
    | record shapes =>
      rw [Shape.isKeyed, Shape.isKeyedFields_eq_true] at hkeyed
      rw [collect, ids, collectFields_eq, idsFields_eq]
      refine List.flatMap_congr fun field hfield ↦ ?_
      obtain ⟨inner, hinner, hconforms⟩ := conforms_record.mp hv field hfield
      obtain ⟨hsuits, hkeyed⟩ := hkeyed _ (mem_of_valueAt? hinner)
      rw [collectUnder_eq hsuits hconforms fun hwalked ↦ ih field hfield hkeyed hwalked hconforms, hinner,
        idsUnder, Option.elim_some]
    | scalar | list => simp [conforms] at hv
    | one | many => simp [Shape.isWalked] at hwalked
  | _ => cases shape <;> first | rfl | simp [Shape.isWalked] at hwalked

end

/-! ### A substitution -/

/-- The names of the outcome are the names there were, each replaced by its other. -/
theorem ids_rename (f : ℕ → ℕ) (shape : Shape α) (v : Json α) : ids shape (rename f shape v) = (ids shape v).map f := by
  induction v generalizing shape with
  | array entries ih =>
    cases shape with
    | list entry =>
      rw [rename, ids, ids, idsEach_eq, idsEach_eq, renameEach_eq, List.flatMap_map, List.map_flatMap]
      exact List.flatMap_congr fun e he ↦ ih e he entry
    | many => exact numbersOfEach_swapEach f (array entries)
    | _ => rfl
  | object fields ih =>
    cases shape with
    | record shapes =>
      rw [rename, ids, ids, idsFields_eq, idsFields_eq, renameFields_eq, List.flatMap_map, List.map_flatMap]
      refine List.flatMap_congr fun field hfield ↦ ?_
      cases hshape : valueAt? shapes field.1 with
      | none => simp [idsUnder]
      | some inner => simpa [idsUnder, renameUnder, hshape] using ih field hfield inner
    | _ => rfl
  | _ => cases shape <;> rfl

/-- What the names are not replaced by makes no difference. -/
theorem rename_congr {f g : ℕ → ℕ} {shape : Shape α} {v : Json α} (h : ∀ n ∈ ids shape v, f n = g n) :
    rename f shape v = rename g shape v := by
  induction v generalizing shape with
  | array entries ih =>
    cases shape with
    | list entry =>
      rw [rename, rename, renameEach_eq, renameEach_eq]
      rw [ids, idsEach_eq] at h
      exact congrArg array (List.map_congr_left fun e he ↦
        ih e he fun n hn ↦ h n (List.mem_flatMap.mpr ⟨e, he, hn⟩))
    | many =>
      exact congrArg array (List.map_congr_left fun e he ↦
        swap_congr fun n hn ↦ h n (List.mem_flatMap.mpr ⟨e, he, hn⟩))
    | _ => rfl
  | object fields ih =>
    cases shape with
    | record shapes =>
      rw [rename, rename, renameFields_eq, renameFields_eq]
      rw [ids, idsFields_eq] at h
      refine congrArg object (List.map_congr_left fun field hfield ↦ ?_)
      have hunder : ∀ n ∈ idsUnder (valueAt? shapes field.1) field.2, f n = g n := fun n hn ↦
        h n (List.mem_flatMap.mpr ⟨field, hfield, hn⟩)
      cases hshape : valueAt? shapes field.1 with
      | none => rfl
      | some inner =>
        rw [hshape] at hunder
        exact congrArg (Prod.mk field.1) (ih field hfield hunder)
    | _ => rfl
  | number n =>
    cases shape with
    | one => exact congrArg number (h n (List.mem_singleton.mpr rfl))
    | _ => rfl
  | _ => cases shape <;> rfl

/-- Two substitutions have one outcome just where they agree on every name. -/
theorem rename_eq_rename_iff {f g : ℕ → ℕ} {shape : Shape α} {v : Json α} :
    rename f shape v = rename g shape v ↔ ∀ n ∈ ids shape v, f n = g n := by
  refine ⟨fun h ↦ ?_, rename_congr⟩
  have hnames := congrArg (ids shape) h
  rwa [ids_rename, ids_rename, List.map_inj_left] at hnames

end Json

end Taskologic.Library
