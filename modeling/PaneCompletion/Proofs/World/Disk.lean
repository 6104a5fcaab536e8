import Mathlib.Data.List.Nodup
import PaneCompletion.Proofs.Path.Location
import PaneCompletion.Proofs.World.Lookup

/-!
# Walks on a disk

A walk comes to places below directories only (`Disk.settled_advance`), so a look-up along more
names goes on from where it has come (`Disk.exists_follow_append`), and what a single name leads to
is what stands there. That is found in the list of a directory as well, if the disk is proper
(`Disk.Proper`): every place is there once, under names that a look-up takes as names. Putting
something on a proper disk leaves it proper.

A look-up asks what stands at a place, and the order in which a disk holds its places does not
matter to it (`Disk.follow_congr`).

1. walks that go on;
2. disks with nothing in the way;
3. proper disks;
4. single names;
5. disks in another order.
-/

namespace PaneCompletion

theorem Node.isDirectory_of_isSearchable {node : Node} (h : node.isSearchable = true) :
    node.isDirectory = true := by
  cases node with
  | directory => rfl
  | _ => cases h

@[simp] theorem Node.isDirectory_opened (node : Node) :
    node.opened.isDirectory = node.isDirectory := by
  cases node <;> rfl

namespace Disk

variable {disk : Disk} {place : Place}

/-! ## Walks that go on -/

/-- What stands at a place that a walk has come to. -/
def nodeAt (disk : Disk) (place : Place) : Node := (disk.node? place).getD (.directory true)

/-- Every place above a place is a directory. -/
def Accessible (disk : Disk) (place : Place) : Prop :=
  ∀ above, above <+: place → above ≠ place → (disk.nodeAt above).isDirectory = true

theorem accessible_root (disk : Disk) : disk.Accessible [] :=
  fun _ habove hne => absurd (List.prefix_nil.mp habove) hne

theorem Accessible.parent (h : disk.Accessible place) : disk.Accessible place.dropLast := by
  intro above habove hne
  refine h above (habove.trans (List.dropLast_prefix place)) ?_
  rintro rfl
  exact hne (habove.eq_of_length_le (List.dropLast_sublist above).length_le)

theorem Accessible.child (h : disk.Accessible place)
    (hplace : (disk.nodeAt place).isDirectory = true) (name : Text) :
    disk.Accessible (place ++ [name]) := by
  intro above habove hne
  obtain hwhole | habove := List.prefix_concat_iff.mp habove
  · exact absurd hwhole hne
  · by_cases hsame : above = place
    · rw [hsame]
      exact hplace
    · exact h above habove hsame

theorem Accessible.isDirectory_parent (h : disk.Accessible place)
    (hplace : (disk.nodeAt place).isDirectory = true) :
    (disk.nodeAt place.dropLast).isDirectory = true := by
  by_cases hsame : place.dropLast = place
  · rw [hsame]
    exact hplace
  · exact h _ (List.dropLast_prefix place) hsame

/-- Where a walk comes it finds what stands there, and it has come through directories only. -/
def Arrival.Settled (disk : Disk) : Arrival → Prop
  | .here place node => node = disk.nodeAt place ∧ disk.Accessible place
  | .stuck _ => True
  | .link directory _ _ => disk.Accessible directory

theorem settled_advance (h : disk.Accessible place) (names : List Text) :
    (disk.advance place (disk.nodeAt place) names).Settled disk := by
  induction names generalizing place with
  | nil => exact ⟨rfl, h⟩
  | cons name rest ih =>
    rw [advance]
    split_ifs with hclosed _ _ _ _
    · trivial
    · exact ih h
    · trivial
    · exact ih h
    · exact ih h.parent
    · have hplace : (disk.nodeAt place).isDirectory = true := by simpa using hclosed
      cases hchild : disk.node? (place ++ [name]) with
      | none => trivial
      | some child =>
        have hnode : disk.nodeAt (place ++ [name]) = child := by rw [nodeAt, hchild]; rfl
        have hdown := hnode ▸ ih (h.child hplace name)
        cases child with
        | link target => exact h
        | _ => exact hdown

/-- A look-up comes where the walk comes, or it goes on behind the link in the way. -/
theorem follow_eq_ok {links : Nat} {start : Place} {names : List Text} {node : Node}
    (h : disk.follow links start names = .ok (place, node)) :
    disk.advance start (disk.nodeAt start) names = .here place node ∨
      ∃ left directory target rest, links = left + 1 ∧ target ≠ [] ∧
        disk.advance start (disk.nodeAt start) names = .link directory target rest ∧
        disk.follow left (if Text.startsWith target ['/'] then [] else directory)
          (Text.pieces '/' target ++ rest) = .ok (place, node) := by
  unfold follow at h
  rw [← nodeAt] at h
  cases harrival : disk.advance start (disk.nodeAt start) names with
  | here place' node' =>
    rw [harrival] at h
    cases h
    exact .inl rfl
  | stuck error =>
    rw [harrival] at h
    cases h
  | link directory target rest =>
    rw [harrival] at h
    cases links with
    | zero => cases h
    | succ left =>
      dsimp only at h
      split at h
      · cases h
      · next htarget => exact .inr ⟨left, directory, target, rest, rfl, htarget, rfl, h⟩

theorem follow_of_here {start : Place} {names : List Text}
    (h : disk.advance start (disk.nodeAt start) names = .here place (disk.nodeAt place))
    (links : Nat) (rest : List Text) :
    disk.follow links start (names ++ rest) = disk.follow links place rest := by
  unfold follow
  rw [← nodeAt, ← nodeAt, advance_append, h]

/-- Along more names a look-up goes on from where it has come, with the links that are left. -/
theorem exists_follow_append {links : Nat} {start : Place} {names : List Text} {node : Node}
    (hstart : disk.Accessible start) (h : disk.follow links start names = .ok (place, node)) :
    node = disk.nodeAt place ∧ disk.Accessible place ∧
      ∃ left, ∀ rest, disk.follow links start (names ++ rest) = disk.follow left place rest := by
  induction links generalizing start names with
  | zero =>
    have hsettled := settled_advance hstart names
    obtain harrival | ⟨left, -, -, -, hlinks, -⟩ := follow_eq_ok h
    · rw [harrival] at hsettled
      exact ⟨hsettled.1, hsettled.2, 0, follow_of_here (hsettled.1 ▸ harrival) 0⟩
    · cases hlinks
  | succ links ih =>
    have hsettled := settled_advance hstart names
    obtain harrival | ⟨left, directory, target, more, hlinks, htarget, harrival, hrest⟩ :=
      follow_eq_ok h
    · rw [harrival] at hsettled
      exact ⟨hsettled.1, hsettled.2, links + 1, follow_of_here (hsettled.1 ▸ harrival) _⟩
    · cases hlinks
      rw [harrival] at hsettled
      have hbehind : disk.Accessible (if Text.startsWith target ['/'] then [] else directory) := by
        split
        · exact accessible_root disk
        · exact hsettled
      obtain ⟨hnode, hplace, left, hfollow⟩ := ih hbehind hrest
      refine ⟨hnode, hplace, left, fun rest => ?_⟩
      rw [follow, ← nodeAt, advance_append, harrival]
      dsimp only
      rw [if_neg htarget, ← List.append_assoc, hfollow]

/-- A look-up that goes on comes to a directory first. -/
theorem exists_follow_of_append {links : Nat} {start : Place} {names : List Text} {name : Text}
    {found : Place × Node} (h : disk.follow links start (names ++ [name]) = .ok found) :
    ∃ place node, disk.follow links start names = .ok (place, node) ∧ node.isDirectory = true := by
  have hopen : ∀ place node, node.isDirectory = false →
      disk.advance place node [name] = .stuck .notDirectory := by
    intro place node hnode
    rw [advance, hnode]
    rfl
  induction links using Nat.strongRecOn generalizing start names with
  | ind links ih =>
    unfold follow at h ⊢
    rw [← nodeAt, advance_append] at h
    rw [← nodeAt]
    cases harrival : disk.advance start (disk.nodeAt start) names with
    | here place node =>
      cases hnode : node.isDirectory with
      | true => exact ⟨place, node, rfl, hnode⟩
      | false => simp [harrival, hopen place node hnode] at h
    | stuck error => simp [harrival] at h
    | link directory target more =>
      cases links with
      | zero => simp [harrival] at h
      | succ left =>
        simp only [harrival] at h ⊢
        split at h
        · cases h
        · next htarget =>
          rw [← List.append_assoc] at h
          rw [if_neg htarget]
          exact ih left left.lt_succ_self h

/-! ## Disks with nothing in the way -/

theorem node?_opened (disk : Disk) (place : Place) :
    disk.opened.node? place = (disk.node? place).map Node.opened := by
  have hfind : disk.opened.nodes.find? (·.1 = place) =
      (disk.nodes.find? (·.1 = place)).map fun found => (found.1, found.2.opened) :=
    List.find?_map
  rw [node?, node?, hfind]
  cases disk.nodes.find? (·.1 = place) with
  | none => by_cases hroot : place = [] <;> simp [hroot, Node.opened]
  | some found => rfl

theorem accessible_of_opened (h : disk.opened.Accessible place) : disk.Accessible place := by
  intro above habove hne
  have hnode : disk.opened.nodeAt above = (disk.nodeAt above).opened := by
    rw [nodeAt, nodeAt, node?_opened]
    cases disk.node? above <;> rfl
  have habove := h above habove hne
  rwa [hnode, Node.isDirectory_opened] at habove

/-! ## Proper disks -/

/-- A place whose names are neither empty nor dots and have no slash and no NUL in them. -/
def ProperPlace (place : Place) : Prop := ∀ name ∈ place, Path.IsName name ∧ '\x00' ∉ name

instance (place : Place) : Decidable (ProperPlace place) :=
  inferInstanceAs (Decidable (∀ name ∈ place, _))

/-- A disk as disks are: every place is there once, and is a proper one. -/
structure Proper (disk : Disk) : Prop where
  nodup : (disk.nodes.map (·.1)).Nodup
  names : ∀ place ∈ disk.nodes.map (·.1), ProperPlace place

theorem mem_of_node? {node : Node} (hne : place ≠ []) (h : disk.node? place = some node) :
    (place, node) ∈ disk.nodes := by
  rw [node?] at h
  cases hfind : disk.nodes.find? (·.1 = place) with
  | none =>
    rw [hfind] at h
    simp [hne] at h
  | some found =>
    obtain ⟨place', node'⟩ := found
    have hplace : place' = place := by simpa using List.find?_some hfind
    rw [hfind] at h
    cases h
    exact hplace ▸ List.mem_of_find?_eq_some hfind

theorem node?_of_mem (hnodup : (disk.nodes.map (·.1)).Nodup) {node : Node}
    (h : (place, node) ∈ disk.nodes) : disk.node? place = some node := by
  obtain ⟨found, hfind⟩ : ∃ found, disk.nodes.find? (·.1 = place) = some found :=
    Option.isSome_iff_exists.mp (List.find?_isSome.mpr ⟨_, h, by simp⟩)
  have hplace : found.1 = place := by simpa using List.find?_some hfind
  have hfound : found = (place, node) :=
    List.inj_on_of_nodup_map hnodup (List.mem_of_find?_eq_some hfind) h hplace
  rw [node?, hfind, hfound]

theorem mem_children {name : Text} {node : Node} :
    (name, node) ∈ disk.children place ↔ (place ++ [name], node) ∈ disk.nodes := by
  rw [children, List.mem_filterMap]
  constructor
  · rintro ⟨⟨full, node'⟩, hmem, heq⟩
    dsimp only at heq
    split at heq
    · next last hlast =>
      obtain ⟨front, rfl⟩ := List.getLast?_eq_some_iff.mp hlast
      split at heq
      · next hfront =>
        rw [List.dropLast_concat] at hfront
        cases heq
        exact hfront ▸ hmem
      · cases heq
    · cases heq
  · intro hmem
    exact ⟨_, hmem, by simp⟩

theorem proper_empty : Proper {} := ⟨.nil, by simp⟩

/-- A disk is proper by its places alone. -/
theorem Proper.of_places {nodes : List (Place × Node)} (h : disk.Proper) {place : Place}
    (hplace : ProperPlace place)
    (hplaces : nodes.map (·.1) = disk.nodes.map (·.1) ∨
      place ∉ disk.nodes.map (·.1) ∧ nodes.map (·.1) = disk.nodes.map (·.1) ++ [place]) :
    Proper { nodes } := by
  obtain hsame | ⟨hnew, hmore⟩ := hplaces
  · exact ⟨by rw [hsame]; exact h.nodup, by rw [hsame]; exact h.names⟩
  · constructor
    · rw [hmore, List.nodup_append_comm]
      exact List.nodup_cons.mpr ⟨hnew, h.nodup⟩
    · rw [hmore]
      intro other hother
      obtain hother | hother := List.mem_append.mp hother
      · exact h.names other hother
      · rw [List.mem_singleton.mp hother]
        exact hplace

theorem not_mem_of_node?_eq_none (h : disk.node? place = none) :
    place ∉ disk.nodes.map (·.1) := by
  intro hmem
  obtain ⟨⟨place', node⟩, hnode, hplace⟩ := List.mem_map.mp hmem
  obtain rfl : place' = place := hplace
  have hfound : (disk.nodes.find? (·.1 = place')).isSome :=
    List.find?_isSome.mpr ⟨_, hnode, by simp⟩
  rw [node?] at h
  split at h
  · cases h
  · next hfind =>
    rw [hfind] at hfound
    cases hfound

theorem Proper.makeParents (h : disk.Proper) {above names : Place}
    (hnames : ProperPlace (above ++ names)) : (disk.makeParents above names).Proper := by
  induction names generalizing disk above with
  | nil => exact h
  | cons name rest ih =>
    cases rest with
    | nil => exact h
    | cons next more =>
      have hplace : ProperPlace (above ++ [name]) := by
        intro other hother
        refine hnames other ?_
        rw [List.append_cons]
        exact List.mem_append_left _ hother
      rw [Disk.makeParents]
      refine ih ?_ (by simpa using hnames)
      split
      · exact h
      · next hmissing =>
        have hnew := not_mem_of_node?_eq_none (Option.not_isSome_iff_eq_none.mp hmissing)
        exact h.of_places hplace (.inr ⟨hnew, by simp⟩)

theorem map_fst_write (place : Place) (node : Node) (nodes : List (Place × Node)) :
    (write place node nodes).map (·.1) = nodes.map (·.1) ∨
      place ∉ nodes.map (·.1) ∧
        (write place node nodes).map (·.1) = nodes.map (·.1) ++ [place] := by
  induction nodes with
  | nil => exact .inr ⟨by simp, rfl⟩
  | cons first rest ih =>
    rw [write]
    split
    · next hfirst => exact .inl (by simp [hfirst])
    · next hfirst =>
      obtain hsame | ⟨hnew, hmore⟩ := ih
      · exact .inl (by rw [List.map_cons, List.map_cons, hsame])
      · refine .inr ⟨?_, by rw [List.map_cons, List.map_cons, hmore]; rfl⟩
        rw [List.map_cons, List.mem_cons, not_or]
        exact ⟨Ne.symm hfirst, hnew⟩

/-- What is put on a proper disk under proper names leaves it proper. -/
theorem Proper.put (h : disk.Proper) {path : Text} (hpath : ProperPlace (placeOf path))
    (node : Node) : (disk.put path node).Proper := by
  have hparents : (disk.makeParents [] (placeOf path)).Proper := h.makeParents hpath
  exact hparents.of_places hpath (map_fst_write _ _ _)

/-! ## Single names -/

theorem advance_name (hplace : (disk.nodeAt place).isSearchable = true) {name : Text}
    (hname : Path.IsName name) (rest : List Text) :
    disk.advance place (disk.nodeAt place) (name :: rest) =
      match disk.node? (place ++ [name]) with
      | none => .stuck .missing
      | some (.link target) => .link place target rest
      | some child => disk.advance (place ++ [name]) child rest := by
  have hdirectory := Node.isDirectory_of_isSearchable hplace
  cases hnode : disk.node? (place ++ [name]) with
  | none =>
    simp [advance, hdirectory, hplace, hname.ne_nil, hname.ne_here, hname.ne_parent, hnode]
  | some child =>
    cases child <;>
      simp [advance, hdirectory, hplace, hname.ne_nil, hname.ne_here, hname.ne_parent, hnode]

/-- In a directory a name is looked up that is there, unless a link stands there. -/
theorem follow_child (hplace : (disk.nodeAt place).isSearchable = true) {name : Text}
    (hname : Path.IsName name) {node : Node} (hnode : disk.node? (place ++ [name]) = some node)
    (hlink : ∀ target, node ≠ .link target) (links : Nat) :
    disk.follow links place [name] = .ok (place ++ [name], node) := by
  unfold follow
  rw [← nodeAt, advance_name hplace hname, hnode]
  cases node with
  | link target => exact absurd rfl (hlink target)
  | _ => rfl

theorem follow_missing (hplace : (disk.nodeAt place).isSearchable = true) {name : Text}
    (hname : Path.IsName name) (hnode : disk.node? (place ++ [name]) = none) (links : Nat) :
    disk.follow links place [name] = .error .missing := by
  unfold follow
  rw [← nodeAt, advance_name hplace hname, hnode]

/-- A name is found only where names can be looked up. -/
theorem isSearchable_of_follow {links : Nat} {name : Text} (hname : name ≠ [])
    {found : Place × Node} (h : disk.follow links place [name] = .ok found) :
    (disk.nodeAt place).isSearchable = true := by
  by_contra hsearchable
  have hclosed : (!(disk.nodeAt place).isSearchable) = true := by simpa using hsearchable
  have hstuck : ∃ error, disk.advance place (disk.nodeAt place) [name] = .stuck error := by
    rw [advance, if_neg hname, if_pos hclosed]
    split
    · exact ⟨_, rfl⟩
    · exact ⟨_, rfl⟩
  obtain ⟨error, hstuck⟩ := hstuck
  unfold follow at h
  rw [← nodeAt, hstuck] at h
  cases h

/-- A name that is empty or dots leads from a directory to one. -/
theorem exists_follow_dots (hplace : (disk.nodeAt place).isSearchable = true)
    (haccessible : disk.Accessible place) {name : Text} (hname : Stays name ∨ name = ['.', '.'])
    (links : Nat) :
    ∃ found node, disk.follow links place [name] = .ok (found, node) ∧
      node.isDirectory = true := by
  have hdirectory := Node.isDirectory_of_isSearchable hplace
  unfold follow
  rw [← nodeAt]
  obtain hstays | rfl := hname
  · rw [advance_stays hstays, stayError?, if_neg (by simp [hdirectory]), if_neg (by simp [hplace])]
    exact ⟨place, _, rfl, hdirectory⟩
  · rw [advance, if_neg (by simp [hdirectory]), if_neg (by decide), if_neg (by simp [hplace]),
      if_neg (by decide), if_pos rfl]
    exact ⟨_, _, rfl, haccessible.isDirectory_parent hdirectory⟩

/-! ## Disks in another order -/

variable {other : Disk}

/-- What stands at a place does not depend on the order of the places. -/
theorem node?_of_perm (hdisk : disk.Proper) (h : other.nodes.Perm disk.nodes) :
    other.node? = disk.node? := by
  have hnodup : (other.nodes.map (·.1)).Nodup := (h.map _).nodup_iff.mpr hdisk.nodup
  funext place
  cases hfind : disk.nodes.find? (·.1 = place) with
  | none =>
    have hother : other.nodes.find? (·.1 = place) = none := by
      rw [List.find?_eq_none] at hfind ⊢
      exact fun found hfound => hfind found (h.mem_iff.mp hfound)
    rw [node?, node?, hfind, hother]
  | some found =>
    have hplace : found.1 = place := by simpa using List.find?_some hfind
    have hmem : (place, found.2) ∈ disk.nodes := hplace ▸ List.mem_of_find?_eq_some hfind
    rw [node?_of_mem hdisk.nodup hmem, node?_of_mem hnodup (h.mem_iff.mpr hmem)]

theorem advance_congr (h : other.node? = disk.node?) (place : Place) (node : Node)
    (names : List Text) : other.advance place node names = disk.advance place node names := by
  induction names generalizing place node with
  | nil => rfl
  | cons name rest ih =>
    rw [advance, advance, h]
    split_ifs
    · rfl
    · exact ih _ _
    · rfl
    · exact ih _ _
    · exact ih _ _
    · cases disk.node? (place ++ [name]) with
      | none => rfl
      | some child =>
        cases child with
        | link target => rfl
        | _ => exact ih _ _

theorem follow_congr (h : other.node? = disk.node?) (links : Nat) (place : Place)
    (names : List Text) : other.follow links place names = disk.follow links place names := by
  induction links generalizing place names with
  | zero => rw [follow, follow, h, advance_congr h]
  | succ links ih =>
    rw [follow, follow, h, advance_congr h]
    simp only [ih]

end Disk

end PaneCompletion
