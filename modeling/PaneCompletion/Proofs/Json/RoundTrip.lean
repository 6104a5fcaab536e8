import PaneCompletion.Proofs.Json.Strings
import PaneCompletion.Proofs.Table
import PaneCompletion.Text.Utf8

/-!
# Documents read back

A value that has been written is read back as itself (`read_print`), provided that it holds no
numbers, no key of an object twice, and does not stand too deep in itself (`Standing`).

The reader has fuel, of which a value takes less than it has characters. That, and that it stops at
the first character that does not belong to the value, is what `Reads` says of one value; arrays and
objects have it from their parts, by an induction over the items and the members that follows the
two readers of lists.

1. values that are read back;
2. blanks;
3. items and members;
4. values and documents.
-/

namespace PaneCompletion.Json

/-! ## Values that are read back -/

/-- A value without numbers, whose objects have each key once, and with room for its arrays and
objects in each other. -/
inductive Standing : Nat → Json → Prop
  | null {room : Nat} : Standing room .null
  | bool {room : Nat} (b : Bool) : Standing room (.bool b)
  | string {room : Nat} (text : Text) : Standing room (.string text)
  | array {room : Nat} {items : List Json} (hitems : ∀ item ∈ items, Standing room item) :
      Standing (room + 1) (.array items)
  | object {room : Nat} {members : List (Text × Json)} (hkeys : (Table.keys members).Nodup)
      (hmembers : ∀ member ∈ members, Standing room member.2) :
      Standing (room + 1) (.object members)

/-- A value is read back in every place, with as much fuel as it has characters. -/
def Reads (room : Nat) (value : Json) : Prop :=
  ∀ (level fuel : Nat) (rest : Text), (valueText level value).length ≤ fuel →
    readValue fuel room (valueText level value ++ rest) = .ok (value, rest)

/-! ## Blanks -/

/-- The characters that stand between the parts of a document. -/
abbrev Blank (c : Char) : Prop := c = ' ' ∨ c = '\t' ∨ c = '\n' ∨ c = '\r'

theorem skipBlanks_cons {c : Char} (hc : ¬Blank c) (text : Text) :
    skipBlanks (c :: text) = c :: text := by
  simp only [not_or] at hc
  simp [skipBlanks, hc]

theorem skipBlanks_lineStart (level : Nat) (text : Text) :
    skipBlanks (lineStart level ++ text) = skipBlanks text := by
  have hspaces : ∀ n, skipBlanks (List.replicate n ' ' ++ text) = skipBlanks text := by
    intro n
    induction n with
    | zero => rfl
    | succ n ih => exact ih
  exact hspaces (2 * level)

theorem exists_valueText_eq_cons {room : Nat} {value : Json} (h : Standing room value)
    (level : Nat) : ∃ c text, valueText level value = c :: text ∧ ¬Blank c ∧ c ≠ ']' := by
  cases h with
  | null => exact ⟨'n', "ull".toList, rfl, by decide, by decide⟩
  | bool b =>
    cases b with
    | true => exact ⟨'t', "rue".toList, rfl, by decide, by decide⟩
    | false => exact ⟨'f', "alse".toList, rfl, by decide, by decide⟩
  | string text => exact ⟨'"', _, rfl, by decide, by decide⟩
  | @array room items hitems =>
    cases items with
    | nil => exact ⟨'[', _, by rw [valueText], by decide, by decide⟩
    | cons item items => exact ⟨'[', _, by rw [valueText]; rfl, by decide, by decide⟩
  | @object room members hkeys hmembers =>
    cases members with
    | nil => exact ⟨'{', _, by rw [valueText], by decide, by decide⟩
    | cons member members => exact ⟨'{', _, by rw [valueText]; rfl, by decide, by decide⟩

theorem skipBlanks_valueText {room : Nat} {value : Json} (h : Standing room value) (level : Nat)
    (rest : Text) : skipBlanks (valueText level value ++ rest) = valueText level value ++ rest := by
  obtain ⟨c, text, htext, hc, -⟩ := exists_valueText_eq_cons h level
  rw [htext, List.cons_append, skipBlanks_cons hc]

theorem skipBlanks_memberText (level : Nat) (member : Text × Json) (rest : Text) :
    skipBlanks (memberText level member ++ rest) = memberText level member ++ rest := by
  rw [memberText]
  exact skipBlanks_cons (c := '"') (by decide) _

/-! ## Items and members -/

section Parts

variable {room : Nat} (outer level : Nat) (rest : Text)

theorem readItems_itemsText {items : List Json} : ∀ (item : Json) (fuel : Nat),
    (∀ other ∈ item :: items, Standing room other ∧ Reads room other) →
    (valueText level item ++ itemsText level items).length < fuel →
    readItems fuel room (valueText level item ++
      (itemsText level items ++ (lineStart outer ++ ']' :: rest))) = .ok (item :: items, rest) := by
  induction items with
  | nil =>
    intro item fuel h hfuel
    obtain ⟨-, hreads⟩ := h item List.mem_cons_self
    obtain ⟨fuel, rfl⟩ : ∃ less, fuel = less + 1 := ⟨fuel - 1, by omega⟩
    have hitem := hreads level fuel (lineStart outer ++ ']' :: rest) (by
      rw [List.length_append] at hfuel
      omega)
    have hend : skipBlanks (lineStart outer ++ ']' :: rest) = ']' :: rest := by
      rw [skipBlanks_lineStart, skipBlanks_cons (by decide)]
    rw [itemsText, List.nil_append, readItems, hitem]
    simp only [bind, Except.bind, hend]
    rfl
  | cons next items ih =>
    intro item fuel h hfuel
    obtain ⟨-, hreads⟩ := h item List.mem_cons_self
    obtain ⟨hnext, -⟩ := h next (by simp)
    obtain ⟨fuel, rfl⟩ : ∃ less, fuel = less + 1 := ⟨fuel - 1, by omega⟩
    rw [itemsText] at hfuel ⊢
    simp only [List.length_append, List.length_cons] at hfuel
    have hitem := hreads level fuel ((',' :: lineStart level ++ valueText level next ++
      itemsText level items) ++ (lineStart outer ++ ']' :: rest)) (by omega)
    have hitems := ih next fuel
      (fun other hother => h other (List.mem_cons_of_mem _ hother))
      (by rw [List.length_append]; omega)
    have hcomma : skipBlanks ((',' :: lineStart level ++ valueText level next ++
        itemsText level items) ++ (lineStart outer ++ ']' :: rest)) =
        ',' :: (lineStart level ++ (valueText level next ++ (itemsText level items ++
          (lineStart outer ++ ']' :: rest)))) := by
      simp only [List.cons_append, List.append_assoc]
      exact skipBlanks_cons (by decide) _
    rw [readItems, hitem]
    simp only [bind, Except.bind, hcomma, skipBlanks_lineStart, skipBlanks_valueText hnext, hitems]
    rfl

theorem readKey_stringText (key text : Text) :
    readKey (stringText key ++ [':', ' '] ++ text) = .ok (key, skipBlanks text) := by
  obtain ⟨inside, hquoted, hread⟩ := readString_stringText key ([':', ' '] ++ text)
  have hcolon : skipBlanks ([':', ' '] ++ text) = ':' :: ' ' :: text :=
    skipBlanks_cons (by decide) _
  have hblank : skipBlanks (' ' :: text) = skipBlanks text := rfl
  rw [List.append_assoc, hquoted, readKey, hread]
  simp only [orMalformed, bind, Except.bind, hcolon, hblank]
  rfl

/-- Members are read as items are, with a key and a colon in front of each value. -/
theorem readMembers_membersText {members : List (Text × Json)} :
    ∀ (member : Text × Json) (fuel : Nat),
    (∀ other ∈ member :: members, Standing room other.2 ∧ Reads room other.2) →
    (memberText level member ++ membersText level members).length < fuel →
    readMembers fuel room (memberText level member ++
      (membersText level members ++ (lineStart outer ++ '}' :: rest))) =
        .ok (member :: members, rest) := by
  induction members with
  | nil =>
    rintro ⟨key, value⟩ fuel h hfuel
    obtain ⟨hstanding, hreads⟩ : Standing room value ∧ Reads room value :=
      h (key, value) List.mem_cons_self
    obtain ⟨fuel, rfl⟩ : ∃ less, fuel = less + 1 := ⟨fuel - 1, by omega⟩
    rw [memberText] at hfuel ⊢
    simp only [List.length_append] at hfuel
    have hvalue := hreads level fuel (lineStart outer ++ '}' :: rest) (by omega)
    have hend : skipBlanks (lineStart outer ++ '}' :: rest) = '}' :: rest := by
      rw [skipBlanks_lineStart, skipBlanks_cons (by decide)]
    rw [membersText, List.nil_append, readMembers, List.append_assoc, readKey_stringText,
      skipBlanks_valueText hstanding]
    simp only [bind, Except.bind, hvalue, hend]
    rfl
  | cons next members ih =>
    rintro ⟨key, value⟩ fuel h hfuel
    obtain ⟨hstanding, hreads⟩ : Standing room value ∧ Reads room value :=
      h (key, value) List.mem_cons_self
    obtain ⟨fuel, rfl⟩ : ∃ less, fuel = less + 1 := ⟨fuel - 1, by omega⟩
    rw [memberText, membersText] at hfuel ⊢
    simp only [List.length_append, List.length_cons] at hfuel
    have hvalue := hreads level fuel ((',' :: lineStart level ++ memberText level next ++
      membersText level members) ++ (lineStart outer ++ '}' :: rest)) (by omega)
    have hmembers := ih next fuel
      (fun other hother => h other (List.mem_cons_of_mem _ hother))
      (by rw [List.length_append]; omega)
    have hcomma : skipBlanks ((',' :: lineStart level ++ memberText level next ++
        membersText level members) ++ (lineStart outer ++ '}' :: rest)) =
        ',' :: (lineStart level ++ (memberText level next ++ (membersText level members ++
          (lineStart outer ++ '}' :: rest)))) := by
      simp only [List.cons_append, List.append_assoc]
      exact skipBlanks_cons (by decide) _
    rw [readMembers, List.append_assoc, readKey_stringText, skipBlanks_valueText hstanding]
    simp only [bind, Except.bind, hvalue, hcomma, skipBlanks_lineStart, skipBlanks_memberText,
      hmembers]
    rfl

end Parts

/-! ## Values and documents -/

theorem readValue_array {fuel room : Nat} {text rest : Text} {items : List Json}
    (hopen : (skipBlanks text).head? ≠ some ']')
    (hitems : readItems fuel room (skipBlanks text) = .ok (items, rest)) :
    readValue (fuel + 1) (room + 1) ('[' :: text) = .ok (.array items, rest) := by
  rw [readValue]
  split
  · next hend => exact absurd (by rw [hend]; rfl) hopen
  · rw [hitems]
    rfl

theorem readValue_object {fuel room : Nat} {text rest : Text} {members : Table Json}
    (hopen : (skipBlanks text).head? ≠ some '}') (hkeys : members.keys.Nodup)
    (hmembers : readMembers fuel room (skipBlanks text) = .ok (members, rest)) :
    readValue (fuel + 1) (room + 1) ('{' :: text) = .ok (.object members, rest) := by
  rw [readValue]
  split
  · next hend => exact absurd (by rw [hend]; rfl) hopen
  · rw [hmembers]
    simp only [Except.map, Table.ofPairs_of_nodup hkeys]

theorem exists_fuel (room : Nat) {value : Json} (h : Standing room value) {level fuel : Nat}
    (hfuel : (valueText level value).length ≤ fuel) : ∃ less, fuel = less + 1 := by
  obtain ⟨c, text, htext, -⟩ := exists_valueText_eq_cons h level
  rw [htext, List.length_cons] at hfuel
  exact ⟨fuel - 1, by omega⟩

theorem Standing.reads {room : Nat} {value : Json} (h : Standing room value) :
    Reads room value := by
  induction h with
  | @null room =>
    intro level fuel rest hfuel
    obtain ⟨fuel, rfl⟩ := exists_fuel room .null hfuel
    rw [valueText]
    rfl
  | @bool room b =>
    intro level fuel rest hfuel
    obtain ⟨fuel, rfl⟩ := exists_fuel room (.bool b) hfuel
    cases b <;> rw [valueText] <;> rfl
  | @string room text =>
    intro level fuel rest hfuel
    obtain ⟨fuel, rfl⟩ := exists_fuel room (.string text) hfuel
    obtain ⟨inside, hquoted, hread⟩ := readString_stringText text rest
    rw [valueText, hquoted, readValue, hread]
    rfl
  | @array room items hitems ih =>
    intro level fuel rest hfuel
    obtain ⟨fuel, rfl⟩ := exists_fuel (room + 1) (.array hitems) hfuel
    cases items with
    | nil =>
      rw [valueText]
      rfl
    | cons item items =>
      have hitem := hitems item List.mem_cons_self
      rw [valueText] at hfuel ⊢
      simp only [List.length_append, List.length_cons] at hfuel
      have hread := readItems_itemsText level (level + 1) rest item fuel
        (fun other hother => ⟨hitems other hother, ih other hother⟩)
        (by rw [List.length_append]; omega)
      simp only [List.cons_append, List.append_assoc, List.nil_append]
      rw [← skipBlanks_valueText hitem, ← skipBlanks_lineStart (level + 1)] at hread
      refine readValue_array ?_ hread
      obtain ⟨c, text, htext, -, hend⟩ := exists_valueText_eq_cons hitem (level + 1)
      rw [skipBlanks_lineStart, skipBlanks_valueText hitem, htext]
      simpa using hend
  | @object room members hkeys hmembers ih =>
    intro level fuel rest hfuel
    obtain ⟨fuel, rfl⟩ := exists_fuel (room + 1) (.object hkeys hmembers) hfuel
    cases members with
    | nil =>
      rw [valueText]
      rfl
    | cons member members =>
      rw [valueText] at hfuel ⊢
      simp only [List.length_append, List.length_cons] at hfuel
      have hread := readMembers_membersText level (level + 1) rest member fuel
        (fun other hother => ⟨hmembers other hother, ih other hother⟩)
        (by rw [List.length_append]; omega)
      simp only [List.cons_append, List.append_assoc, List.nil_append]
      rw [← skipBlanks_memberText, ← skipBlanks_lineStart (level + 1)] at hread
      refine readValue_object ?_ hkeys hread
      rw [skipBlanks_lineStart, skipBlanks_memberText, memberText]
      exact fun hend => absurd (Option.some.inj hend) (by decide)

/-- A document that has been written is read back as its value. -/
theorem read_print {value : Json} (h : Standing depthLimit value) :
    read (print value) = .ok value := by
  have hblanks := skipBlanks_valueText h 0 []
  have hvalue := h.reads 0 (2 * (print value).length + 1) [] (by rw [print]; omega)
  rw [List.append_nil] at hblanks hvalue
  rw [read, print, hblanks]
  rw [print] at hvalue
  simp only [hvalue, bind, Except.bind]
  rfl

/-! ## Bytes -/

/-- A text of ASCII characters. -/
def Ascii (text : Text) : Prop := ∀ c ∈ text, c.toNat < 0x80

@[simp] theorem ascii_nil : Ascii [] := by simp [Ascii]

@[simp] theorem ascii_cons {c : Char} {text : Text} :
    Ascii (c :: text) ↔ c.toNat < 0x80 ∧ Ascii text := List.forall_mem_cons

@[simp] theorem ascii_append {a b : Text} : Ascii (a ++ b) ↔ Ascii a ∧ Ascii b :=
  List.forall_mem_append

@[simp] theorem ascii_lineStart (level : Nat) : Ascii (lineStart level) := by
  intro c hc
  rcases List.mem_cons.mp hc with rfl | hspace
  · decide
  · rw [List.eq_of_mem_replicate hspace]
    decide

@[simp] theorem ascii_stringText (text : Text) : Ascii (stringText text) := by
  have hinside : Ascii (text.flatMap charText) := by
    intro d hd
    obtain ⟨c, -, hd⟩ := List.mem_flatMap.mp hd
    have hlt := lt_of_mem_charText hd
    omega
  simp [stringText, hinside]

theorem ascii_itemsText {level : Nat} {items : List Json}
    (h : ∀ item ∈ items, Ascii (valueText level item)) : Ascii (itemsText level items) := by
  induction items with
  | nil => simp [itemsText]
  | cons item items ih =>
    obtain ⟨hitem, hitems⟩ := List.forall_mem_cons.mp h
    simp [itemsText, hitem, ih hitems]

theorem ascii_memberText {level : Nat} {member : Text × Json}
    (h : Ascii (valueText level member.2)) : Ascii (memberText level member) := by
  obtain ⟨key, value⟩ := member
  simp [memberText, show Ascii (valueText level value) from h]

theorem ascii_membersText {level : Nat} {members : List (Text × Json)}
    (h : ∀ member ∈ members, Ascii (valueText level member.2)) :
    Ascii (membersText level members) := by
  induction members with
  | nil => simp [membersText]
  | cons member members ih =>
    obtain ⟨hmember, hmembers⟩ := List.forall_mem_cons.mp h
    simp [membersText, ascii_memberText hmember, ih hmembers]

theorem Standing.ascii {room : Nat} {value : Json} (h : Standing room value) (level : Nat) :
    Ascii (valueText level value) := by
  induction h generalizing level with
  | null => simp [valueText]
  | bool b => cases b <;> simp [valueText]
  | string text => simp [valueText]
  | @array room items hitems ih =>
    cases items with
    | nil => simp [valueText]
    | cons item items =>
      have hall := fun other hother => ih other hother (level + 1)
      obtain ⟨hitem, hitems⟩ := List.forall_mem_cons.mp hall
      simp [valueText, hitem, ascii_itemsText hitems]
  | @object room members hkeys hmembers ih =>
    cases members with
    | nil => simp [valueText]
    | cons member members =>
      have hall := fun other hother => ih other hother (level + 1)
      obtain ⟨hmember, hmembers⟩ := List.forall_mem_cons.mp hall
      simp [valueText, ascii_memberText hmember, ascii_membersText hmembers]

theorem Standing.ascii_print {room : Nat} {value : Json} (h : Standing room value) :
    Ascii (print value) := h.ascii 0

/-- The bytes of ASCII characters are read as these characters. -/
theorem decode?_of_ascii {text : Text} (h : Ascii text) :
    Text.Utf8.decode? (text.map fun c => UInt8.ofNat c.toNat) = some text := by
  induction text with
  | nil => rfl
  | cons c rest ih =>
    obtain ⟨hc, hrest⟩ := ascii_cons.mp h
    have hbyte : (UInt8.ofNat c.toNat).toNat = c.toNat := by
      rw [UInt8.toNat_ofNat']
      omega
    have hfirst : Text.Utf8.first (UInt8.ofNat c.toNat) = .char c := by
      simp [Text.Utf8.first, hbyte, hc]
    have hdecoded := ih hrest
    simp only [Text.Utf8.decode?] at hdecoded ⊢
    rw [List.map_cons, Text.Utf8.scan, hfirst]
    simp only [Text.Utf8.allWhole, hdecoded, Option.map_some]

end PaneCompletion.Json
