import Taskologic.Core.Ids
import Taskologic.Daemon.FileShapes

/-!
# Matching people by name

The uids of a file mean nothing on another server. The file lists the people it names, and they are looked up
here by name; every uid whose person is known here is replaced by the one they have here (`remapUsers`).

That is one substitution on the whole file, and it touches nothing but people (`remapUids_eq_rename`). It keeps
people apart just where no two people of the file are one person here, and nobody becomes somebody the file
names whom nobody here matches (`renamesApart_iff`).

Scope. A file is the document that its text parses to. The names known here are walked in an order that is not
fixed. An account of the file is not looked into.
-/

set_option autoImplicit false
set_option relaxedAutoImplicit false

namespace Taskologic.Daemon

open Taskologic.Core Taskologic.Library

/-- Somebody a file mentions. The account is there when they have logged in to the server the file came from. -/
structure Person where
  uid : Uid
  username : Text
  account : Option Document

/-! ### Reading and writing people -/

def fieldOf (key : String) : Document → Option Document
  | .object fields => valueAt? fields (text key)
  | _ => none

def asUid : Document → Option Uid
  | .number n => if n < 2 ^ 32 then some n else none
  | _ => none

def asText : Document → Option Text
  | .string s => some s
  | _ => none

def readPerson (v : Document) : Option Person :=
  match (fieldOf "uid" v).bind asUid, (fieldOf "username" v).bind asText with
  | some uid, some username => some ⟨uid, username, fieldOf "account" v⟩
  | _, _ => none

/-- The people a file lists, if its list is readable. -/
def readPeople (v : Document) : Option (List Person) :=
  match fieldOf "users" v with
  | none => some []
  | some (.array entries) => entries.mapM readPerson
  | some _ => none

/-- A file as the server wrote it: a document of one of the three shapes that lists nobody twice. -/
structure ExportedFile where
  shape : FileShape
  doc : Document
  isFile : shape ∈ fileShapes
  conforms : doc.conforms shape = true
  distinct : ∀ people, readPeople doc = some people → Keyed Person.uid people

/-- Everybody a file mentions, wherever they sit. -/
def ExportedFile.uids (file : ExportedFile) : List Uid := file.doc.ids file.shape

/-! ### Matching -/

/-- The names known here with their uids, as a table that has every name once, in whatever order it is walked. -/
structure NameTable where
  entries : List (Text × Uid)
  distinct : Keyed Prod.fst entries

namespace NameTable

def insert (here : NameTable) (name : Text) (uid : Uid) : NameTable where
  entries := (name, uid) :: here.entries.filter fun entry ↦ entry.1 ≠ name
  distinct := by
    rw [Keyed, List.map_cons, List.nodup_cons]
    refine ⟨fun hmem ↦ ?_, List.Nodup.sublist (List.filter_sublist.map _) here.distinct⟩
    obtain ⟨entry, hentry, hname⟩ := List.mem_map.mp hmem
    exact of_decide_eq_true (List.mem_filter.mp hentry).2 hname

/-- Everyone who has logged in, and everyone in the daemon's group: the system's word on who is which uid beats a
stale login row. -/
def ofServer (users locals : List (Text × Uid)) : NameTable :=
  (users ++ locals).foldl (fun here entry ↦ here.insert entry.1 entry.2) ⟨[], List.nodup_nil⟩

/-- Who somebody is here: by their name as it is, else by any that differs only in case. -/
def matching (here : NameTable) (name : Text) : Option Uid :=
  valueAt? here.entries name <|>
    (here.entries.find? fun entry ↦ Core.eqIgnoreAsciiCase entry.1 name).map Prod.snd

end NameTable

/-- What is said about somebody of the file. -/
inductive RemapNote where
  | sameHere (username : Text) (uid : Uid)
  | moved (username : Text) (uid new : Uid)
  | nobodyHere (username : Text) (uid : Uid)
  | rewritten (count : ℕ)
  deriving DecidableEq

inductive RemapError where
  /-- The file's list of people is not readable. -/
  | usersUnreadable
  /-- The file names nobody, so there are no usernames to match. -/
  | namesNobody
  deriving DecidableEq

def noteFor (here : NameTable) (p : Person) : RemapNote :=
  match here.matching p.username with
  | some new => if new = p.uid then .sameHere p.username p.uid else .moved p.username p.uid new
  | none => .nobodyHere p.username p.uid

/-- The uid somebody gets, if it is another one. -/
def movedTo (here : NameTable) (p : Person) : Option (Uid × Uid) :=
  match here.matching p.username with
  | some new => if new = p.uid then none else some (p.uid, new)
  | none => none

/-- Old and new uids. Of two entries for one uid the later counts. -/
def uidMap (here : NameTable) (people : List Person) : List (Uid × Uid) :=
  (people.filterMap (movedTo here)).reverse

/-- What a number under a key for uids becomes. -/
def mapped (map : List (Uid × Uid)) (n : ℕ) : ℕ := ((asUid (.number n)).bind (valueAt? map)).getD n

/-- Rewrite every uid that is in the map, wherever it sits, and say how many changed. -/
def remapUids (map : List (Uid × Uid)) (v : Document) : Document × ℕ :=
  (v.remap uidKeys uidListKeys (mapped map),
    ((v.collect uidKeys uidListKeys).filter fun n ↦ ((asUid (.number n)).bind (valueAt? map)).isSome).length)

/-- Rewrite the uids in a file to this server's by username. The file's own list of people is the only place the
names come from. -/
def remapUsers (here : NameTable) (v : Document) : Except RemapError (Document × List RemapNote) :=
  match readPeople v with
  | none => .error .usersUnreadable
  | some [] => .error .namesNobody
  | some people =>
    let (doc, changed) := remapUids (uidMap here people) v
    .ok (doc, people.map (noteFor here) ++ [.rewritten changed])

/-! ### One substitution -/

/-- Every place that holds a uid is rewritten, all by one map, and no other place is. -/
theorem remapUids_eq_rename (map : List (Uid × Uid)) (file : ExportedFile) :
    (remapUids map file.doc).1 = file.doc.rename (mapped map) file.shape :=
  have ⟨hwalked, hkeyed⟩ := isKeyed_of_mem_fileShapes file.isFile
  Json.remap_eq_rename _ hkeyed hwalked file.conforms

theorem remapUsers_eq_ok {here : NameTable} {v doc : Document} {notes : List RemapNote} :
    remapUsers here v = .ok (doc, notes) ↔ ∃ people, readPeople v = some people ∧ people ≠ [] ∧
      doc = (remapUids (uidMap here people) v).1 ∧
      notes = people.map (noteFor here) ++ [.rewritten (remapUids (uidMap here people) v).2] := by
  unfold remapUsers
  cases hpeople : readPeople v with
  | none => simp
  | some people => cases people <;> simp [eq_comm]

/-! ### Who gets which uid -/

section Matched

variable {here : NameTable} {people : List Person} {p : Person} {n uid : Uid}

theorem movedTo_eq_some : movedTo here p = some (n, uid) ↔
    p.uid = n ∧ here.matching p.username = some uid ∧ uid ≠ p.uid := by
  unfold movedTo
  cases here.matching p.username with
  | none => simp
  | some new =>
    dsimp only
    split_ifs with hsame
    · refine iff_of_false not_false ?_
      rintro ⟨-, hnew, hother⟩
      exact hother (Option.some.inj hnew ▸ hsame)
    · simp only [Option.some.injEq, Prod.mk.injEq]
      refine and_congr_right fun _ ↦ ⟨fun hnew ↦ ⟨hnew, hnew ▸ hsame⟩, And.left⟩

theorem mem_uidMap : (n, uid) ∈ uidMap here people ↔
    ∃ p ∈ people, p.uid = n ∧ here.matching p.username = some uid ∧ uid ≠ p.uid := by
  simp only [uidMap, List.mem_reverse, List.mem_filterMap, movedTo_eq_some]

theorem keyed_uidMap (hdistinct : Keyed Person.uid people) : Keyed Prod.fst (uidMap here people) := by
  rw [uidMap, Keyed, List.map_reverse, List.nodup_reverse]
  exact hdistinct.filterMap fun p entry hmoved ↦
    (movedTo_eq_some.mp (Prod.mk.eta ▸ hmoved : movedTo here p = some (entry.1, entry.2))).1.symm

/-- Somebody known here gets the uid they have here. -/
theorem mapped_of_matching (hdistinct : Keyed Person.uid people) (hp : p ∈ people)
    (hbound : p.uid < 2 ^ 32) (hmatching : here.matching p.username = some uid) :
    mapped (uidMap here people) p.uid = uid := by
  rw [mapped, asUid, if_pos hbound, Option.bind_some]
  by_cases hsame : uid = p.uid
  · have hnone : valueAt? (uidMap here people) p.uid = none := by
      refine valueAt?_eq_none_iff.mpr fun other hother ↦ ?_
      obtain ⟨q, hq, huid, hfound, hne⟩ := mem_uidMap.mp hother
      obtain rfl := List.inj_on_of_nodup_map hdistinct hq hp huid
      exact hne ((Option.some.inj (hfound.symm.trans hmatching)).trans hsame)
    rw [hnone, Option.getD_none, hsame]
  · rw [(valueAt?_eq_some_iff (keyed_uidMap hdistinct)).mpr (mem_uidMap.mpr ⟨p, hp, rfl, hmatching, hsame⟩),
      Option.getD_some]

/-- A uid stays that belongs to nobody who is known here. -/
theorem mapped_of_unmatched (hnone : ∀ p ∈ people, p.uid = n → here.matching p.username = none) :
    mapped (uidMap here people) n = n := by
  have hkeep : valueAt? (uidMap here people) n = none := by
    refine valueAt?_eq_none_iff.mpr fun other hother ↦ ?_
    obtain ⟨p, hp, huid, hfound, -⟩ := mem_uidMap.mp hother
    exact Option.some_ne_none _ (hfound.symm.trans (hnone p hp huid))
  rw [mapped, asUid]
  split_ifs
  · rw [Option.bind_some, hkeep, Option.getD_none]
  · rfl

end Matched

/-! ### The people of a file -/

theorem fieldOf_eq_some {key : String} {v child : Document} :
    fieldOf key v = some child ↔ ∃ fields, v = .object fields ∧ valueAt? fields (text key) = some child := by
  cases v <;> simp [fieldOf]

theorem of_readPerson {v : Document} {p : Person} (h : readPerson v = some p) :
    fieldOf "uid" v = some (.number p.uid) ∧ p.uid < 2 ^ 32 := by
  unfold readPerson at h
  split at h
  case h_1 uid username huid _ =>
    obtain rfl := Option.some.inj h
    obtain ⟨child, hchild, hnumber⟩ := Option.bind_eq_some_iff.mp huid
    cases child with
    | number n =>
      rw [asUid] at hnumber
      split_ifs at hnumber with hbound
      obtain rfl := Option.some.inj hnumber
      exact ⟨hchild, hbound⟩
    | _ => cases hnumber
  case h_2 => cases h

theorem exists_of_mem_mapM {α β : Type*} {f : α → Option β} {entries : List α} {outcome : List β} {b : β}
    (h : entries.mapM f = some outcome) (hb : b ∈ outcome) : ∃ a ∈ entries, f a = some b := by
  induction entries generalizing outcome with
  | nil =>
    obtain rfl := Option.some.inj h
    cases hb
  | cons a entries ih =>
    rw [List.mapM_cons] at h
    obtain ⟨first, hfirst, h⟩ := Option.bind_eq_some_iff.mp h
    obtain ⟨rest, hrest, h⟩ := Option.bind_eq_some_iff.mp h
    obtain rfl := Option.some.inj h
    obtain rfl | hb := List.mem_cons.mp hb
    · exact ⟨a, List.mem_cons_self, hfirst⟩
    · obtain ⟨other, hother, hb⟩ := ih hrest hb
      exact ⟨other, List.mem_cons_of_mem _ hother, hb⟩

/-- Who is listed is an entry of the file's list. -/
theorem exists_of_mem_readPeople {v : Document} {people : List Person} {p : Person}
    (hpeople : readPeople v = some people) (hp : p ∈ people) :
    ∃ entries, fieldOf "users" v = some (.array entries) ∧ ∃ entry ∈ entries, readPerson entry = some p := by
  unfold readPeople at hpeople
  split at hpeople
  case h_1 =>
    obtain rfl := Option.some.inj hpeople
    cases hp
  case h_2 entries hentries => exact ⟨entries, hentries, exists_of_mem_mapM hpeople hp⟩
  case h_3 => cases hpeople

/-- Every file lists its people in the same place. -/
theorem exists_of_mem_fileShapes {shape : FileShape} (hshape : shape ∈ fileShapes) :
    ∃ shapes, shape = .record shapes ∧ valueAt? shapes (text "users") = some (.list personShape) := by
  simp only [fileShapes, List.mem_cons, List.not_mem_nil, or_false] at hshape
  obtain rfl | rfl | rfl := hshape <;> exact ⟨_, rfl, rfl⟩

namespace ExportedFile

variable {file : ExportedFile} {people : List Person} {p : Person}

theorem uid_lt_of_mem (hpeople : readPeople file.doc = some people) (hp : p ∈ people) : p.uid < 2 ^ 32 := by
  obtain ⟨_, -, _, -, hread⟩ := exists_of_mem_readPeople hpeople hp
  exact (of_readPerson hread).2

/-- Who is listed is mentioned. -/
theorem mem_uids (hpeople : readPeople file.doc = some people) (hp : p ∈ people) : p.uid ∈ file.uids := by
  obtain ⟨entries, hentries, entry, hentry, hread⟩ := exists_of_mem_readPeople hpeople hp
  obtain ⟨fields, hdoc, hfield⟩ := fieldOf_eq_some.mp hentries
  obtain ⟨personFields, rfl, huid⟩ := fieldOf_eq_some.mp (of_readPerson hread).1
  obtain ⟨shapes, hshape, hlist⟩ := exists_of_mem_fileShapes file.isFile
  have hperson : p.uid ∈ Json.ids personShape (.object personFields) :=
    Json.mem_ids_of_valueAt? rfl huid (List.mem_singleton.mpr rfl)
  rw [uids, hshape, hdoc]
  refine Json.mem_ids_of_valueAt? hlist hfield ?_
  rw [Json.ids, Json.idsEach_eq]
  exact List.mem_flatMap.mpr ⟨_, hentry, hperson⟩

end ExportedFile

/-! ### Writing a file -/

/-- Which people a file lists. -/
inductive People where
  /-- Names only, for a program or template. -/
  | names
  /-- Everyone the file mentions, with their account when they have one. -/
  | mentioned
  /-- Every account there is, mentioned or not. -/
  | everyone
  deriving DecidableEq

def Person.toDocument (p : Person) : Document :=
  .object ([(text "uid", .number p.uid), (text "username", .string p.username)] ++
    p.account.toList.map fun account ↦ (text "account", account))

/-- Somebody as this server knows them. -/
def personOf (users group : List Person) (which : People) (uid : Uid) : Option Person :=
  ((users.find? fun user ↦ user.uid == uid).map fun user ↦
      { user with account := if which = .names then none else user.account }).or
    ((group.find? fun user ↦ user.uid == uid).map fun user ↦ { user with account := none })

/-- The people a file mentions, named. A uid nobody here can name is left out, since it could not be remapped
anyway. -/
def peopleIn (users group : List Person) (which : People) (v : Document) : List Person :=
  let mentioned := (v.collect uidKeys uidListKeys).filterMap fun n ↦ asUid (.number n)
  let uids := mentioned ++ if which = .everyone then users.map Person.uid else []
  (uids.dedup.insertionSort (· ≤ ·)).filterMap (personOf users group which)

/-- Fill in the list of people of a file. -/
def withPeople (users group : List Person) (which : People) (fields : List (Text × Document)) : Document :=
  .object (setAt fields (text "users")
    (.array ((peopleIn users group which (.object fields)).map Person.toDocument)))

section Writing

variable {users group : List Person} {which : People} {v : Document} {p : Person}

theorem of_personOf {uid : Uid} (hp : personOf users group which uid = some p) : p.uid = uid ∧
    ∃ user ∈ users ++ group, user.uid = uid ∧ (p.account = none ∨ p.account = user.account) := by
  rcases Option.or_eq_some_iff.mp hp with huser | ⟨-, hgroup⟩
  · obtain ⟨user, hfind, rfl⟩ := Option.map_eq_some_iff.mp huser
    have huid : user.uid = uid := by simpa using List.find?_some hfind
    refine ⟨huid, user, List.mem_append_left _ (List.mem_of_find?_eq_some hfind), huid, ?_⟩
    dsimp only
    split_ifs <;> simp
  · obtain ⟨user, hfind, rfl⟩ := Option.map_eq_some_iff.mp hgroup
    have huid : user.uid = uid := by simpa using List.find?_some hfind
    exact ⟨huid, user, List.mem_append_right _ (List.mem_of_find?_eq_some hfind), huid, .inl rfl⟩

theorem keyed_peopleIn : Keyed Person.uid (peopleIn users group which v) := by
  rw [peopleIn]
  generalize (List.filterMap (fun n ↦ asUid (.number n)) (v.collect uidKeys uidListKeys) ++
    if which = .everyone then users.map Person.uid else []) = uids
  have hsorted : Keyed id (uids.dedup.insertionSort (· ≤ ·)) := by
    rw [Keyed, List.map_id]
    exact (List.perm_insertionSort _ _).nodup_iff.mpr uids.nodup_dedup
  exact hsorted.filterMap fun uid p hp ↦ (of_personOf hp).1

/-- Somebody is read as they were written. -/
theorem readPerson_toDocument (hbound : p.uid < 2 ^ 32) : readPerson p.toDocument = some p := by
  have huid : fieldOf "uid" p.toDocument = some (.number p.uid) := rfl
  have hname : fieldOf "username" p.toDocument = some (.string p.username) := rfl
  have haccount : fieldOf "account" p.toDocument = p.account := by
    obtain ⟨uid, username, _ | account⟩ := p <;> rfl
  rw [readPerson, huid, hname, haccount, Option.bind_some, Option.bind_some, asUid, if_pos hbound]
  rfl

theorem conforms_toDocument (haccount : ∀ account ∈ p.account, account.conforms accountShape = true) :
    p.toDocument.conforms personShape = true := by
  obtain ⟨uid, username, _ | account⟩ := p
  · rfl
  · refine Json.conforms_record.mpr fun field hfield ↦ ?_
    simp only [Option.toList_some, List.map_cons, List.map_nil, List.cons_append, List.nil_append,
      List.mem_cons, List.not_mem_nil, or_false] at hfield
    obtain rfl | rfl | rfl := hfield
    · exact ⟨_, rfl, rfl⟩
    · exact ⟨_, rfl, rfl⟩
    · exact ⟨_, rfl, haccount account rfl⟩

theorem mapM_readPerson {people : List Person} (hbound : ∀ p ∈ people, p.uid < 2 ^ 32) :
    (people.map Person.toDocument).mapM readPerson = some people := by
  induction people with
  | nil => rfl
  | cons p people ih =>
    obtain ⟨hp, hrest⟩ := List.forall_mem_cons.mp hbound
    rw [List.map_cons, List.mapM_cons, readPerson_toDocument hp, ih hrest]
    rfl

/-- The people read back from a file that lists any are the ones it was written with. -/
theorem readPeople_withPeople {fields : List (Text × Document)} {people : List Person}
    (hbound : ∀ p ∈ peopleIn users group which (.object fields), p.uid < 2 ^ 32)
    (hread : readPeople (withPeople users group which fields) = some people) :
    people = [] ∨ people = peopleIn users group which (.object fields) := by
  rw [readPeople, withPeople, fieldOf, valueAt?_setAt] at hread
  cases hfield : valueAt? fields (text "users") with
  | none =>
    rw [hfield] at hread
    exact .inl (Option.some.inj hread).symm
  | some =>
    rw [hfield, Option.map_some] at hread
    exact .inr (Option.some.inj (hread.symm.trans (mapM_readPerson hbound)))

/-- What a server writes is a file of its shape that lists nobody twice. -/
theorem exists_exportedFile {shape : FileShape} {fields : List (Text × Document)} (hshape : shape ∈ fileShapes)
    (hbody : (Json.object fields).conforms shape = true)
    (hknown : ∀ user ∈ users ++ group, user.uid < 2 ^ 32 ∧
      ∀ account ∈ user.account, account.conforms accountShape = true) :
    ∃ file : ExportedFile, file.doc = withPeople users group which fields := by
  have hpeople : ∀ p ∈ peopleIn users group which (.object fields), p.uid < 2 ^ 32 ∧
      ∀ account ∈ p.account, account.conforms accountShape = true := by
    intro p hp
    obtain ⟨_, -, hfound⟩ := List.mem_filterMap.mp hp
    obtain ⟨huid, user, huser, hsame, haccount⟩ := of_personOf hfound
    obtain ⟨hbound, hconforms⟩ := hknown user huser
    refine ⟨huid.trans hsame.symm ▸ hbound, fun account hmem ↦ ?_⟩
    obtain hnone | hkept := haccount
    · rw [hnone] at hmem
      cases hmem
    · exact hconforms account (hkept ▸ hmem)
  refine ⟨⟨shape, _, hshape, ?_, fun people hread ↦ ?_⟩, rfl⟩
  · obtain ⟨shapes, rfl, husers⟩ := exists_of_mem_fileShapes hshape
    refine Json.conforms_record.mpr (List.forall_mem_map.mpr fun field hfield ↦ ?_)
    split_ifs with hkey
    · refine ⟨_, hkey ▸ husers, Json.conforms_list.mpr (List.forall_mem_map.mpr fun p hp ↦ ?_)⟩
      exact conforms_toDocument (hpeople p hp).2
    · exact Json.conforms_record.mp hbody field hfield
  · obtain rfl | rfl := readPeople_withPeople (fun p hp ↦ (hpeople p hp).1) hread
    · exact List.nodup_nil
    · exact keyed_peopleIn

end Writing

/-! ### Keeping people apart -/

/-- The file comes out with one substitution of its people made, in every place that holds one and in no other,
and whoever was somebody else before still is. -/
def RenamesApart (here : NameTable) (file : ExportedFile) : Prop :=
  ∀ doc notes, remapUsers here file.doc = .ok (doc, notes) →
    ∃ rename : Uid → Uid, doc = file.doc.rename rename file.shape ∧ Set.InjOn rename {uid | uid ∈ file.uids}

/-- The names of the people of a file keep them apart here. -/
structure NamesApart (here : NameTable) (file : ExportedFile) (people : List Person) : Prop where
  /-- No two of them are one person here. -/
  onePerson : ∀ p ∈ people, ∀ q ∈ people, ∀ uid, here.matching p.username = some uid →
    here.matching q.username = some uid → p.uid = q.uid
  /-- Nobody becomes somebody the file mentions who is not known here by name. -/
  uidFree : ∀ p ∈ people, ∀ uid ∈ file.uids, here.matching p.username = some uid →
    ∃ q ∈ people, q.uid = uid ∧ (here.matching q.username).isSome = true

section Apart

variable {here : NameTable} {file : ExportedFile} {people : List Person} {n : Uid}

/-- A uid of the file is somebody's who is known here, or it stays. -/
theorem mapped_cases (here : NameTable) (hpeople : readPeople file.doc = some people) (n : Uid) :
    (∃ p ∈ people, p.uid = n ∧ here.matching p.username = some (mapped (uidMap here people) n)) ∨
      (∀ p ∈ people, p.uid = n → here.matching p.username = none) ∧ mapped (uidMap here people) n = n := by
  by_cases hknown : ∃ p ∈ people, p.uid = n ∧ (here.matching p.username).isSome = true
  · obtain ⟨p, hp, rfl, hsome⟩ := hknown
    obtain ⟨uid, huid⟩ := Option.isSome_iff_exists.mp hsome
    refine .inl ⟨p, hp, rfl, ?_⟩
    rw [mapped_of_matching (file.distinct people hpeople) hp (ExportedFile.uid_lt_of_mem hpeople hp) huid, huid]
  · have hnone : ∀ p ∈ people, p.uid = n → here.matching p.username = none := fun p hp huid ↦
      Option.not_isSome_iff_eq_none.mp fun hsome ↦ hknown ⟨p, hp, huid, hsome⟩
    exact .inr ⟨hnone, mapped_of_unmatched hnone⟩

/-- Somebody who is not known here keeps a uid that nobody of the file is given. -/
theorem ne_mapped_of_unmatched {p : Person} (h : NamesApart here file people) (hp : p ∈ people)
    (hn : n ∈ file.uids) (hnone : ∀ q ∈ people, q.uid = n → here.matching q.username = none) :
    here.matching p.username ≠ some n := by
  intro hmatching
  obtain ⟨q, hq, huid, hsome⟩ := h.uidFree p hp n hn hmatching
  simp [hnone q hq huid] at hsome

theorem injOn_mapped (hpeople : readPeople file.doc = some people) (h : NamesApart here file people) :
    Set.InjOn (mapped (uidMap here people)) {uid | uid ∈ file.uids} := by
  intro n hn m hm hsame
  obtain ⟨p, hp, rfl, hknown⟩ | ⟨hnone, hkeep⟩ := mapped_cases here hpeople n <;>
    obtain ⟨q, hq, rfl, hknown'⟩ | ⟨hnone', hkeep'⟩ := mapped_cases here hpeople m
  · exact h.onePerson p hp q hq _ hknown (hsame ▸ hknown')
  · rw [hsame, hkeep'] at hknown
    exact (ne_mapped_of_unmatched h hp hm hnone' hknown).elim
  · rw [← hsame, hkeep] at hknown'
    exact (ne_mapped_of_unmatched h hq hn hnone hknown').elim
  · exact hkeep.symm.trans (hsame.trans hkeep')

theorem namesApart_of_injOn (hpeople : readPeople file.doc = some people)
    (h : Set.InjOn (mapped (uidMap here people)) {uid | uid ∈ file.uids}) : NamesApart here file people := by
  have hmapped : ∀ p ∈ people, ∀ uid, here.matching p.username = some uid →
      mapped (uidMap here people) p.uid = uid := fun p hp _ ↦
    mapped_of_matching (file.distinct people hpeople) hp (ExportedFile.uid_lt_of_mem hpeople hp)
  constructor
  · intro p hp q hq uid hpuid hquid
    refine h (ExportedFile.mem_uids hpeople hp) (ExportedFile.mem_uids hpeople hq) ?_
    rw [hmapped p hp uid hpuid, hmapped q hq uid hquid]
  · intro p hp uid huid hpuid
    by_contra hnobody
    have hnone : ∀ q ∈ people, q.uid = uid → here.matching q.username = none := fun q hq hquid ↦
      Option.not_isSome_iff_eq_none.mp fun hsome ↦ hnobody ⟨q, hq, hquid, hsome⟩
    have hsame : p.uid = uid := by
      refine h (ExportedFile.mem_uids hpeople hp) huid ?_
      rw [hmapped p hp uid hpuid, mapped_of_unmatched hnone]
    exact hnobody ⟨p, hp, hsame, hpuid ▸ rfl⟩

/-- A file comes out with its people kept apart just where their names keep them apart here. -/
theorem renamesApart_iff : RenamesApart here file ↔
    ∀ people, readPeople file.doc = some people → NamesApart here file people := by
  constructor
  · intro h people hpeople
    by_cases hnone : people = []
    · subst hnone
      exact ⟨fun _ hp ↦ (List.not_mem_nil hp).elim, fun _ hp ↦ (List.not_mem_nil hp).elim⟩
    · obtain ⟨rename, hdoc, hinj⟩ := h _ _ (remapUsers_eq_ok.mpr ⟨people, hpeople, hnone, rfl, rfl⟩)
      rw [remapUids_eq_rename, Json.rename_eq_rename_iff] at hdoc
      exact namesApart_of_injOn hpeople (hinj.congr fun n hn ↦ (hdoc n hn).symm)
  · intro h doc notes hremap
    obtain ⟨people, hpeople, -, rfl, -⟩ := remapUsers_eq_ok.mp hremap
    exact ⟨_, remapUids_eq_rename _ file, injOn_mapped hpeople (h people hpeople)⟩

end Apart

/-! ### Two people who become one -/

theorem programFileShape_mem : programFileShape ∈ fileShapes := by simp [fileShapes]

theorem keyed_bob_alice :
    Keyed Person.uid [⟨1000, text "bob", none⟩, ⟨1234, text "alice", none⟩] := by
  simp [Keyed]

/-- A program whose first step is for Alice and Bob, from a server where they are 1234 and 1000. -/
def aliceAndBob : ExportedFile where
  shape := programFileShape
  doc := .object [
    (text "taskologic", .object [(text "format", .number 1), (text "kind", .string (text "program")),
      (text "taskologic", .string (text "0.2.0")), (text "exported_at", .string (text "2026-01-05T09:00:00Z")),
      (text "board", .string (text "Kitchen"))]),
    (text "users", .array [
      .object [(text "uid", .number 1000), (text "username", .string (text "bob"))],
      .object [(text "uid", .number 1234), (text "username", .string (text "alice"))]]),
    (text "program", .object [(text "name", .string (text "Clean up")), (text "description", .string []),
      (text "steps", .array [.object [(text "key", .string (text "root")),
        (text "title", .string (text "Clean up")), (text "description", .string []),
        (text "assign", .object [(text "users", .array [.number 1234, .number 1000])]),
        (text "checklist", .array []), (text "created", .array []), (text "once", .bool false),
        (text "also_after", .array []), (text "start", .string (text "manual")), (text "auto_start", .bool false),
        (text "time_limit", .null), (text "counts_toward_root", .bool true), (text "question", .null),
        (text "print", .array []), (text "fan_out", .null)]]),
      (text "min_samples", .number 3)]),
    (text "short_id", .string (text "A1B2C3"))]
  isFile := programFileShape_mem
  conforms := by decide +kernel
  distinct _ hpeople := (Option.some.inj hpeople) ▸ keyed_bob_alice

/-- Alice is 1000 here, and nobody is called Bob. -/
def aliceHere : NameTable := .ofServer [(text "alice", 1000)] []

/-- Alice becomes 1000, and so she is who Bob was. -/
theorem not_renamesApart_aliceAndBob : ¬ RenamesApart aliceHere aliceAndBob := by
  intro h
  obtain ⟨rename, hdoc, hinj⟩ := h _ _ rfl
  have hnames := congrArg (Json.ids programFileShape) hdoc
  rw [show aliceAndBob.shape = programFileShape from rfl, Json.ids_rename] at hnames
  have hmoved : [1000, 1000, 1000, 1000] = [rename 1000, rename 1234, rename 1234, rename 1000] := hnames
  have hsame : rename 1000 = rename 1234 := by
    simp only [List.cons.injEq] at hmoved
    rw [← hmoved.1, ← hmoved.2.1]
  have huids : aliceAndBob.uids = [1000, 1234, 1234, 1000] := rfl
  have hbob : (1000 : Uid) ∈ {uid | uid ∈ aliceAndBob.uids} := by simp [huids]
  have halice : (1234 : Uid) ∈ {uid | uid ∈ aliceAndBob.uids} := by simp [huids]
  exact absurd (hinj hbob halice hsame) (by decide)

end Taskologic.Daemon
