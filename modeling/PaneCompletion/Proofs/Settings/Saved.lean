import Mathlib.Data.List.DropRight
import PaneCompletion.Proofs.Json.RoundTrip
import PaneCompletion.Proofs.Settings.Fit
import PaneCompletion.Settings.Store

/-!
# Settings in memory and in their file

A document whose fields hold values of their declared types is read back from its file as it is
(`load_file`). Such documents are what changes of declared types leave in memory (`Proper.changed`),
so after any calls what a new store would read is the document that was saved last.

That need not be the document in memory. A change takes effect there before it is saved, and stays
there when saving fails. So memory and file differ, after any calls, exactly where a call since the
last one that returned has given a field another value than was saved; and a change that could not
be saved is saved after all by the next call that returns (`reload_after`).

1. documents of declared types;
2. documents in files;
3. one call;
4. calls one after another.
-/

namespace PaneCompletion

/-! ## Documents of declared types -/

namespace Json

theorem IsTextOrNull.standing {value : Json} (h : value.IsTextOrNull) {room : Nat} :
    Standing room value := by
  obtain rfl | ⟨text, rfl⟩ := h
  · exact .null
  · exact .string text

theorem standing_of_text {value : Json} (h : value.text?.isSome) {room : Nat} :
    Standing room value := by
  cases value <;> simp [text?] at h
  exact .string _

theorem IsWords.standing {value : Json} (h : value.IsWords) {room : Nat} :
    Standing (room + 1) value := by
  obtain ⟨items, rfl, hitems⟩ := h
  exact .array fun item hitem => standing_of_text (hitems item hitem)

end Json

namespace Document

/-- The types that fields are declared with. -/
inductive FieldType where
  | text
  | switch
  | textOrNull
  | associations
  | kinds
  | words

/-- A value is of a type. An object has each key once. -/
def FieldType.Holds : FieldType → Json → Prop
  | .text, value => ∃ text, value = .string text
  | .switch, value => ∃ b, value = .bool b
  | .textOrNull, value => value.IsTextOrNull
  | .associations, value => ∃ members : Table Json, value = .object members ∧
      members.keys.Nodup ∧ ∀ member ∈ members, member.2.IsWords
  | .kinds, value => ∃ members : Table Json, value = .object members ∧
      members.keys.Nodup ∧ ∀ member ∈ members, member.2.text?.isSome
  | .words, value => value.IsWords

/-- The fields with their types, in the order in which they are written. -/
def fieldTypes : Table FieldType :=
  [("home_dir".toList, .text), ("case_insensitive_paths".toList, .switch),
    ("use_vim_help".toList, .switch), ("help_tags_file".toList, .textOrNull),
    ("colors_dir".toList, .textOrNull), ("filetypes".toList, .associations),
    ("mime_handlers".toList, .associations), ("options".toList, .kinds),
    ("variables".toList, .words), ("functions".toList, .words)]

/-- A value is of the type that a field is declared with. -/
def Declared (name : Text) (value : Json) : Prop :=
  ∃ type, fieldTypes.get? name = some type ∧ type.Holds value

theorem nodup_fieldTypes : fieldTypes.keys.Nodup := by decide

/-- Values of declared types are read back; an object of lists is the deepest of them. -/
theorem FieldType.Holds.standing {type : FieldType} {value : Json} (h : type.Holds value)
    {room : Nat} : Json.Standing (room + 2) value := by
  cases type with
  | text =>
    obtain ⟨text, rfl⟩ := h
    exact .string text
  | switch =>
    obtain ⟨b, rfl⟩ := h
    exact .bool b
  | textOrNull => exact Json.IsTextOrNull.standing h
  | associations =>
    obtain ⟨members, rfl, hkeys, hmembers⟩ := h
    exact .object hkeys fun member hmember => (hmembers member hmember).standing
  | kinds =>
    obtain ⟨members, rfl, hkeys, hmembers⟩ := h
    exact .object hkeys fun member hmember => Json.standing_of_text (hmembers member hmember)
  | words => exact Json.IsWords.standing h

/-- A document with a value of its declared type in each field. -/
structure Proper (document : Document) : Prop where
  keys : document.fields.keys = fieldTypes.keys
  declared : ∀ field ∈ document.fields, Declared field.1 field.2

theorem proper_initial (world : World) : (initial world).Proper where
  keys := rfl
  declared := by
    intro field hfield
    simp only [initial, defaults, List.mem_cons, List.not_mem_nil, or_false] at hfield
    rcases hfield with rfl | rfl | rfl | rfl | rfl | rfl | rfl | rfl | rfl | rfl
    · exact ⟨.text, rfl, _, rfl⟩
    · exact ⟨.switch, rfl, _, rfl⟩
    · exact ⟨.switch, rfl, _, rfl⟩
    · exact ⟨.textOrNull, rfl, .inl rfl⟩
    · exact ⟨.textOrNull, rfl, .inl rfl⟩
    · exact ⟨.associations, rfl, [], rfl, List.nodup_nil, by simp⟩
    · exact ⟨.associations, rfl, [], rfl, List.nodup_nil, by simp⟩
    · exact ⟨.kinds, rfl, [], rfl, List.nodup_nil, by simp⟩
    · exact ⟨.words, rfl, [], rfl, by simp⟩
    · exact ⟨.words, rfl, [], rfl, by simp⟩

theorem Proper.standing {document : Document} (h : document.Proper) :
    Json.Standing Json.depthLimit document.toJson :=
  .object (h.keys ▸ nodup_fieldTypes) fun field hfield => by
    obtain ⟨type, -, hholds⟩ := h.declared field hfield
    exact hholds.standing

/-- The fields of a document make that document. -/
theorem Proper.ofObject_fields {document : Document} (h : document.Proper) (world : World) :
    ofObject world document.fields = document := by
  have hkeys : document.fields.keys = Table.keys (defaults world.homeDirectory) := h.keys
  rw [ofObject, Table.map_get? hkeys (h.keys ▸ nodup_fieldTypes)]

/-- Two documents are the same where they have the same value in each field. -/
theorem Proper.ext {document other : Document} (h : document.Proper) (hother : other.Proper)
    (hfields : ∀ name, document.fields.get? name = other.fields.get? name) : document = other := by
  rw [← h.ofObject_fields {}, ← hother.ofObject_fields {}]
  simp only [ofObject, hfields]

/-- Changes of declared types. -/
def Changes (changes : Table Json) : Prop := ∀ change ∈ changes, Declared change.1 change.2

theorem Proper.changed {document : Document} (h : document.Proper) {changes : Table Json}
    (hchanges : Changes changes) : Proper ⟨document.changed changes⟩ where
  keys := by
    have hold : ∀ change ∈ changes, change.1 ∈ document.fields.keys := by
      intro change hchange
      obtain ⟨type, htype, -⟩ := hchanges change hchange
      exact h.keys ▸ Table.mem_keys_of_get? htype
    exact (Table.keys_foldl_put hold).trans h.keys
  declared := by
    intro field hfield
    rcases Table.mem_foldl_put hfield with hchange | hold
    · exact hchanges field hchange
    · exact h.declared field hold

end Document

/-! ## Documents in files -/

/-- Nothing, or a file that a document of declared types has been saved in. -/
inductive FileSlot.Saved : FileSlot → Prop
  | absent : Saved .absent
  | file {document : Document} (h : document.Proper) : Saved (.file (Store.bytesOf document))

namespace Store

/-- What a new store would read. -/
def reloaded (world : World) (slot : FileSlot) : Document := (load world slot).store.document

theorem objectIn_bytesOf {document : Document} (h : document.Proper) :
    objectIn (bytesOf document) = .ok document.fields := by
  have hprinted := h.standing
  rw [objectIn, bytesOf, Json.decode?_of_ascii hprinted.ascii_print]
  simp only [Json.read_print hprinted]
  rfl

/-- A document of declared types is read back from its file. -/
theorem reloaded_file (world : World) {document : Document} (h : document.Proper) :
    reloaded world (.file (bytesOf document)) = document := by
  rw [reloaded, load]
  simp only [objectIn_bytesOf h]
  exact h.ofObject_fields world

theorem proper_reloaded (world : World) {slot : FileSlot} (h : slot.Saved) :
    (reloaded world slot).Proper := by
  cases h with
  | absent => exact Document.proper_initial world
  | file h =>
    rw [reloaded_file world h]
    exact h

/-! ## One call -/

/-- A change of fields, and what stands in the way of saving it, if anything does. -/
structure Call where
  changes : Table Json
  obstacle : Option SaveError := none

/-- What stands at the file's place where saving fails for a reason. -/
def obstructed : SaveError → FileSlot
  | .isDirectory => .directory
  | .directoryBlocked => .blocked

/-- Change fields, and save. What is in the way of that stands at the file's place for the time of
the call. -/
def call (world : World) (store : Store) (call : Call) : Stored :=
  match call.obstacle with
  | none => store.update world call.changes
  | some reason =>
    let stored := update world { store with slot := obstructed reason } call.changes
    { stored with store := { stored.store with slot := store.slot } }

/-- A store that could save: nothing is in the way, and the document is of declared types. -/
structure Ready (store : Store) : Prop where
  document : store.document.Proper
  slot : store.slot.Saved

theorem slot_load (world : World) {slot : FileSlot} (h : slot.Saved) :
    (load world slot).store.slot = slot := by
  cases h with
  | absent => rfl
  | file h => simp only [load, objectIn_bytesOf h]

theorem ready_load (world : World) {slot : FileSlot} (h : slot.Saved) :
    (load world slot).store.Ready where
  document := proper_reloaded world h
  slot := (slot_load world h).symm ▸ h

/-- What a call leaves: the changed document, and that document in the file unless something was in
the way. -/
theorem call_eq (world : World) {store : Store} (h : store.Ready) {call : Call}
    (hchanges : Document.Changes call.changes) :
    (store.call world call).store.document = ⟨store.document.changed call.changes⟩ ∧
    (store.call world call).store.slot =
      (if call.obstacle.isSome then store.slot
        else .file (bytesOf ⟨store.document.changed call.changes⟩)) ∧
    (store.call world call).error = call.obstacle := by
  have hchanged : Document.ofObject world (store.document.changed call.changes) =
      ⟨store.document.changed call.changes⟩ := (h.document.changed hchanges).ofObject_fields world
  obtain ⟨changes, obstacle⟩ := call
  cases obstacle with
  | none =>
    have hslot := h.slot
    obtain ⟨document, slot⟩ := store
    cases hslot <;> simp [Store.call, update, save, hchanged]
  | some reason => cases reason <;> simp [Store.call, update, save, obstructed, hchanged]

/-! ## Calls one after another -/

/-- The store after calls. -/
def after (world : World) (store : Store) (calls : List Call) : Store :=
  calls.foldl (fun store call => (store.call world call).store) store

/-- What calls give the fields, in order. -/
def given (calls : List Call) : Table Json := calls.flatMap (·.changes)

/-- The last value that calls give a field. -/
def lastGiven (name : Text) (calls : List Call) : Option Json :=
  Table.get? name (given calls).reverse

/-- The calls up to the last one that returned. -/
def returned (calls : List Call) : List Call := calls.rdropWhile (·.obstacle.isSome)

/-- The calls since the last one that returned. -/
def failed (calls : List Call) : List Call := calls.rtakeWhile (·.obstacle.isSome)

theorem returned_append_singleton (calls : List Call) (call : Call) :
    returned (calls ++ [call]) =
      if call.obstacle.isSome then returned calls else calls ++ [call] :=
  List.rdropWhile_concat _ _ _

theorem returned_append_failed (calls : List Call) : returned calls ++ failed calls = calls :=
  List.rdropWhile_append_rtakeWhile

theorem failed_eq_nil {calls : List Call} (h : ∀ call ∈ calls, call.obstacle = none) :
    failed calls = [] := by
  rw [failed, List.rtakeWhile_eq_nil_iff]
  intro hne
  simp [h _ (List.getLast_mem hne)]

theorem lastGiven_append (name : Text) (a b : List Call) :
    lastGiven name (a ++ b) = (lastGiven name b).or (lastGiven name a) := by
  simp [lastGiven, given, Table.get?_append]

theorem after_append_singleton (world : World) (store : Store) (calls : List Call) (call : Call) :
    store.after world (calls ++ [call]) = ((store.after world calls).call world call).store := by
  simp [after, List.foldl_append]

section Run

variable (world : World) {store : Store} (h : store.Ready) {calls : List Call}
  (hcalls : ∀ call ∈ calls, Document.Changes call.changes)

include h hcalls

/-- All calls change the document in memory, and none of them spoils the file. -/
theorem after_eq : (store.after world calls).Ready ∧
    (store.after world calls).document = ⟨store.document.changed (given calls)⟩ := by
  induction calls using List.reverseRecOn with
  | nil => exact ⟨h, rfl⟩
  | append_singleton calls call ih =>
    obtain ⟨hready, hdocument⟩ := ih fun call hcall => hcalls call (List.mem_append_left _ hcall)
    have hchanges := hcalls call (by simp)
    obtain ⟨hchanged, hslot, -⟩ := call_eq world hready hchanges
    have hproper := hready.document.changed hchanges
    rw [after_append_singleton]
    refine ⟨⟨hchanged ▸ hproper, ?_⟩, ?_⟩
    · rw [hslot]
      split_ifs
      · exact hready.slot
      · exact .file hproper
    · rw [hchanged, hdocument]
      simp [Document.changed, given, List.foldl_append]

/-- What a new store would read is what was in memory after the last call that returned. -/
theorem reloaded_after (hread : reloaded world store.slot = store.document) :
    reloaded world (store.after world calls).slot =
      (store.after world (returned calls)).document := by
  induction calls using List.reverseRecOn with
  | nil => exact hread
  | append_singleton calls call ih =>
    have hbefore : ∀ call ∈ calls, Document.Changes call.changes :=
      fun call hcall => hcalls call (List.mem_append_left _ hcall)
    have hchanges := hcalls call (by simp)
    obtain ⟨hready, -⟩ := after_eq world h hbefore
    obtain ⟨hchanged, hslot, -⟩ := call_eq world hready hchanges
    rw [after_append_singleton, hslot, returned_append_singleton]
    split_ifs with hfails
    · exact ih hbefore
    · rw [after_append_singleton, hchanged]
      exact reloaded_file world (hready.document.changed hchanges)

theorem get?_after (name : Text) : (store.after world calls).document.fields.get? name =
    (lastGiven name calls).or (store.document.fields.get? name) := by
  rw [(after_eq world h hcalls).2]
  exact Table.get?_foldl_put name (given calls) store.document.fields

end Run

/-- After any calls, some of which could not save: memory has for each field the last value that a
call gave it, also one that raised; a new store would read the last value given up to the last call
that returned. The two agree exactly if what was given since is what was saved, so they do where
every call returned; and a call raises exactly if something is in the way, with the reason that this
has. -/
theorem reload_after (world : World) {slot : FileSlot} (hslot : slot.Saved) {calls : List Call}
    (hcalls : ∀ call ∈ calls, Document.Changes call.changes) :
    let opened := (load world slot).store
    let store := opened.after world calls
    (∀ name, store.document.fields.get? name =
      (lastGiven name calls).or (opened.document.fields.get? name)) ∧
    (∀ name, (reloaded world store.slot).fields.get? name =
      (lastGiven name (returned calls)).or (opened.document.fields.get? name)) ∧
    (reloaded world store.slot = store.document ↔
      ∀ name value, lastGiven name (failed calls) = some value →
        (reloaded world store.slot).fields.get? name = some value) ∧
    ((∀ call ∈ calls, call.obstacle = none) → reloaded world store.slot = store.document) ∧
    ∀ call : Call, Document.Changes call.changes →
      (store.call world call).error = call.obstacle := by
  intro opened store
  have hopened : opened.Ready := ready_load world hslot
  have hread : reloaded world opened.slot = opened.document := by
    rw [slot_load world hslot]
    rfl
  have hreturned : ∀ call ∈ returned calls, Document.Changes call.changes :=
    fun call hcall => hcalls call (returned_append_failed calls ▸ List.mem_append_left _ hcall)
  obtain ⟨hready, -⟩ := after_eq world hopened hcalls
  have hmemory := get?_after world hopened hcalls
  have hfile : ∀ name, (reloaded world store.slot).fields.get? name =
      (lastGiven name (returned calls)).or (opened.document.fields.get? name) := by
    intro name
    rw [reloaded_after world hopened hcalls hread]
    exact get?_after world hopened hreturned name
  have hsplit : ∀ name, lastGiven name calls =
      (lastGiven name (failed calls)).or (lastGiven name (returned calls)) := by
    intro name
    rw [← lastGiven_append, returned_append_failed]
  have hagree : reloaded world store.slot = store.document ↔
      ∀ name value, lastGiven name (failed calls) = some value →
        (reloaded world store.slot).fields.get? name = some value := by
    constructor
    · intro heq name value hvalue
      rw [heq, hmemory, hsplit, hvalue]
      rfl
    · intro hsame
      refine (proper_reloaded world hready.slot).ext hready.document fun name => ?_
      rw [hmemory, hsplit]
      cases hgiven : lastGiven name (failed calls) with
      | none => rw [hfile, Option.none_or]
      | some value => rw [hsame name value hgiven, Option.some_or, Option.some_or]
  refine ⟨hmemory, hfile, hagree, ?_, fun call hchanges => (call_eq world hready hchanges).2.2⟩
  intro hreturns
  refine hagree.mpr fun name value hvalue => ?_
  rw [failed_eq_nil hreturns] at hvalue
  exact absurd hvalue (by simp [lastGiven, given, Table.get?])

/-- A switch that could not be saved at first, a directory that was saved, and with it the switch,
and the switch back, which is in memory alone. -/
theorem reload_after_obstacles :
    let calls : List Call :=
      [⟨[("use_vim_help".toList, .bool true)], some .directoryBlocked⟩,
        ⟨[("colors_dir".toList, .string "/c".toList)], none⟩,
        ⟨[("use_vim_help".toList, .bool false)], some .isDirectory⟩]
    let store := (load {} .absent).store.after {} calls
    store.document.fields.get? "use_vim_help".toList = some (.bool false) ∧
      (reloaded {} store.slot).fields.get? "use_vim_help".toList = some (.bool true) ∧
      (reloaded {} store.slot).fields.get? "colors_dir".toList = some (.string "/c".toList) ∧
      reloaded {} store.slot ≠ store.document := by
  intro calls store
  have hcalls : ∀ call ∈ calls, Document.Changes call.changes := by
    intro call hcall change hchange
    simp only [calls, List.mem_cons, List.not_mem_nil, or_false] at hcall
    rcases hcall with rfl | rfl | rfl <;> obtain rfl := List.mem_singleton.mp hchange
    · exact ⟨.switch, rfl, true, rfl⟩
    · exact ⟨.textOrNull, rfl, .inr ⟨_, rfl⟩⟩
    · exact ⟨.switch, rfl, false, rfl⟩
  obtain ⟨hmemory, hfile, hagree, -, -⟩ := reload_after {} .absent hcalls
  have hswitch : (reloaded {} store.slot).fields.get? "use_vim_help".toList = some (.bool true) :=
    hfile _
  refine ⟨hmemory _, hswitch, hfile _, fun heq => ?_⟩
  have hlost := hagree.mp heq "use_vim_help".toList (.bool false) rfl
  rw [hswitch] at hlost
  simp at hlost

/-- A change that cannot be saved is in memory, and not in the file. -/
theorem not_reload_after :
    ¬∀ (world : World) (slot : FileSlot) (calls : List Call), slot.Saved →
      (∀ call ∈ calls, Document.Changes call.changes) →
      reloaded world ((load world slot).store.after world calls).slot =
        ((load world slot).store.after world calls).document := by
  intro h
  have hcalls : ∀ call ∈ [(⟨[("use_vim_help".toList, .bool true)], some .directoryBlocked⟩ : Call)],
      Document.Changes call.changes := by
    intro call hcall change hchange
    obtain rfl := List.mem_singleton.mp hcall
    obtain rfl := List.mem_singleton.mp hchange
    exact ⟨.switch, rfl, true, rfl⟩
  have hsame := congrArg (fun document => document.fields.get? "use_vim_help".toList)
    (h {} .absent _ .absent hcalls)
  have hswitch : some (Json.bool false) = some (Json.bool true) := hsame
  simp at hswitch

end Store

end PaneCompletion
