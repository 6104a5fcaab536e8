import PaneCompletion.Browse
import PaneCompletion.Proofs.Text.Offset
import PaneCompletion.Proofs.Text.Pieces

/-!
# Looking up places with dots in their paths

An empty name and a dot lead nowhere else. The one asks for a directory, the other for permission to
look up names in it as well. So in front of another name, which takes that permission itself, they
make no difference (`World.locate_joined_dot`, `World.locate_append_slash`), and the name leads
where it did (`Entry.leadsIn_joined_dot`). At the end a dot does make one: a directory that may be
read but not searched is found by its path, and not with a dot behind it
(`World.locate_joined_dot_end`, `World.list_joined_dot_iff`). Links are followed wherever they
stand, so all of this is stated first for walks from an arbitrary place along arbitrary names.

1. walks in two parts;
2. names that stay;
3. dots in paths.
-/

namespace PaneCompletion

namespace Disk

/-! ## Walks in two parts -/

/-- A walk along more names goes on where the walk along the first of them has come. -/
theorem advance_append (disk : Disk) (place : Place) (node : Node) (names rest : List Text) :
    disk.advance place node (names ++ rest) =
      match disk.advance place node names with
      | .here place node => disk.advance place node rest
      | .stuck error => .stuck error
      | .link directory target more => .link directory target (more ++ rest) := by
  induction names generalizing place node with
  | nil => rfl
  | cons name names ih =>
    rw [List.cons_append, advance, advance]
    split_ifs
    · rfl
    · exact ih _ _
    · rfl
    · exact ih _ _
    · exact ih _ _
    · cases disk.node? (place ++ [name]) with
      | none => rfl
      | some child =>
        cases child with
        | link target => rfl
        | _ => exact ih _ _

/-- Behind names along which links are followed, all that counts of further names is where they
lead from any place. -/
theorem follow_append_congr {disk : Disk} {some other : List Text}
    (h : ∀ place node, disk.advance place node some = disk.advance place node other)
    (links : Nat) (place : Place) (names : List Text) :
    disk.follow links place (names ++ some) = disk.follow links place (names ++ other) := by
  induction links generalizing place names with
  | zero =>
    rw [follow, follow, advance_append, advance_append]
    cases disk.advance place ((disk.node? place).getD (.directory true)) names with
    | here place node => simp only [h]
    | stuck error => rfl
    | link directory target more => rfl
  | succ links ih =>
    rw [follow, follow, advance_append, advance_append]
    cases disk.advance place ((disk.node? place).getD (.directory true)) names with
    | here place node => simp only [h]
    | stuck error => rfl
    | link directory target more => simp only [← List.append_assoc, ih]

/-! ## Names that stay -/

/-- A name that leads nowhere else. -/
abbrev Stays (name : Text) : Prop := name = [] ∨ name = ['.']

/-- What keeps a name that stays from being taken along at a node. -/
def stayError? (name : Text) (node : Node) : Option LookupError :=
  if !node.isDirectory then some .notDirectory
  else if name ≠ [] ∧ !node.isSearchable then some .notPermitted
  else none

theorem advance_stays {name : Text} (h : Stays name) (disk : Disk) (place : Place) (node : Node)
    (rest : List Text) :
    disk.advance place node (name :: rest) =
      match stayError? name node with
      | some error => .stuck error
      | none => disk.advance place node rest := by
  rw [advance, stayError?]
  obtain rfl | rfl := h
  · cases node.isDirectory <;> rfl
  · cases node.isDirectory <;> cases node.isSearchable <;> rfl

/-- In front of a name that is not empty, a name that stays asks for nothing that the other does
not. -/
theorem advance_stays_of_ne_nil {name : Text} (h : Stays name) (disk : Disk) (place : Place)
    (node : Node) {next : Text} (hnext : next ≠ []) (rest : List Text) :
    disk.advance place node (name :: next :: rest) = disk.advance place node (next :: rest) := by
  rw [advance_stays h, stayError?]
  cases hdirectory : node.isDirectory with
  | false => simp [advance, hdirectory]
  | true =>
    cases hsearchable : node.isSearchable with
    | true => simp
    | false =>
      obtain rfl | rfl := h
      · simp
      · simp [advance, hdirectory, hsearchable, hnext]

/-- In front of any name, so does an empty one. -/
theorem advance_nil_of_cons (disk : Disk) (place : Place) (node : Node) (next : Text)
    (rest : List Text) :
    disk.advance place node ([] :: next :: rest) = disk.advance place node (next :: rest) := by
  rw [advance_stays (.inl rfl), stayError?]
  cases hdirectory : node.isDirectory with
  | false => simp [advance, hdirectory]
  | true => simp

/-- An empty name behind a dot asks for nothing more. -/
theorem advance_dot_nil (disk : Disk) (place : Place) (node : Node) :
    disk.advance place node [['.'], []] = disk.advance place node [['.']] := by
  rw [advance_stays (.inr rfl), advance_stays (.inr rfl), advance_stays (.inl rfl), stayError?]
  cases hdirectory : node.isDirectory <;> cases node.isSearchable <;> simp [stayError?, hdirectory]

/-- What is found, if a name that stays can be taken along there. -/
def staying (name : Text) :
    Except LookupError (Place × Node) → Except LookupError (Place × Node)
  | .ok (place, node) =>
    match stayError? name node with
    | some error => .error error
    | none => .ok (place, node)
  | .error error => .error error

theorem of_staying_eq_ok {name : Text} {found : Except LookupError (Place × Node)}
    {entry : Place × Node} (h : staying name found = .ok entry) :
    found = .ok entry ∧ stayError? name entry.2 = none := by
  unfold staying at h
  split at h
  · split at h
    · cases h
    · next hstay =>
      cases h
      exact ⟨rfl, hstay⟩
  · cases h

/-- Any name asks for all that an empty one asks for. -/
theorem staying_staying_nil (name : Text) (found : Except LookupError (Place × Node)) :
    staying name (staying [] found) = staying name found := by
  cases found with
  | error error => rfl
  | ok found => cases hnode : found.2.isDirectory <;> simp [staying, stayError?, hnode]

/-- A name that stays, at the end, asks for what it asks for there. -/
theorem follow_append_stays {name : Text} (h : Stays name) (disk : Disk) (links : Nat)
    (place : Place) (names : List Text) :
    disk.follow links place (names ++ [name]) = staying name (disk.follow links place names) := by
  have hhere : ∀ place node, disk.advance place node [name] =
      match stayError? name node with
      | some error => .stuck error
      | none => .here place node :=
    fun place node => advance_stays h disk place node []
  induction links generalizing place names with
  | zero =>
    rw [follow, follow, advance_append]
    cases disk.advance place ((disk.node? place).getD (.directory true)) names with
    | here place node => cases hstay : stayError? name node <;> simp [hhere, staying, hstay]
    | stuck error => rfl
    | link directory target more => rfl
  | succ links ih =>
    rw [follow, follow, advance_append]
    cases disk.advance place ((disk.node? place).getD (.directory true)) names with
    | here place node => cases hstay : stayError? name node <;> simp [hhere, staying, hstay]
    | stuck error => rfl
    | link directory target more =>
      dsimp only
      split
      · rfl
      · rw [← List.append_assoc, ih]

end Disk

/-! ## Dots in paths -/

/-- The suffix of a path is that of its last name. -/
theorem Path.snd_splitSuffix_append_slash {name : Text} (h : '/' ∉ name) (front : Text) :
    (splitSuffix (front ++ '/' :: name)).2 = (splitSuffix name).2 := by
  rw [splitSuffix, splitSuffix, Text.reach_append h, Text.reach_eq_zero_iff.mpr h]
  cases hlast : Text.lastIndex? '.' name with
  | none =>
    have hname : '.' ∉ '/' :: name := by simpa using Text.lastIndex?_eq_none_iff.mp hlast
    rw [Text.lastIndex?_append_of_not_mem hname]
    cases hfront : Text.lastIndex? '.' front with
    | none => rfl
    | some dot =>
      have hlt := Text.lastIndex?_lt hfront
      have hnone : ((front ++ '/' :: name).take dot).drop (front.length + 1) = [] := by
        rw [List.drop_eq_nil_iff, List.length_take]
        omega
      simp only [hnone, List.any_nil, Bool.false_eq_true, if_false]
  | some dot =>
    obtain ⟨stem, suffix, rfl, rfl, hsuffix⟩ := Text.exists_of_lastIndex? hlast
    have hwhole : front ++ '/' :: (stem ++ '.' :: suffix) =
        (front ++ '/' :: stem) ++ '.' :: suffix := by simp
    have hstem : (front ++ '/' :: stem).drop (front.length + 1) = stem := by
      rw [List.append_cons, List.drop_left' (by simp)]
    rw [hwhole, Text.lastIndex?_append hsuffix]
    simp only [List.take_left', List.drop_left', hstem, List.drop_zero]
    split <;> rfl

namespace World

theorem locate_eq {path : Text} (hne : path ≠ []) (hnul : '\x00' ∉ path) (world : World) :
    world.locate path = world.origin path >>= fun place =>
      world.disk.follow Disk.linkLimit place (Text.pieces '/' path) := by
  rw [locate, if_neg (by simp [refuses, hnul]), if_neg (by simp [hne])]

theorem locate_of_mem_nul {path : Text} (hnul : '\x00' ∈ path) (world : World) :
    world.locate path = .error .nul := by
  rw [locate, if_pos (by simp [refuses, hnul])]

/-- A path is followed from where its beginning is. -/
theorem origin_append {front : Text} (hne : front ≠ []) (world : World) (path : Text) :
    world.origin (front ++ path) = world.origin front := by
  obtain ⟨c, rest, rfl⟩ := List.exists_cons_of_ne_nil hne
  rfl

theorem origin_joined {directory path : Text} (hne : directory ≠ [])
    (hpath : Text.startsWith path ['/'] = false) (world : World) :
    world.origin (Path.joined directory path) = world.origin directory := by
  rw [Path.joined, hpath, if_neg Bool.false_ne_true]
  split
  · exact origin_append hne world path
  · exact origin_append hne world _

/-- The names of a relative path come behind those of the directory it is seen from, where a slash
at the end of that one is not counted. -/
theorem exists_pieces_joined {directory : Text} (hne : directory ≠ []) :
    ∃ front, (∀ path, Text.startsWith path ['/'] = false →
        Text.pieces '/' (Path.joined directory path) = front ++ Text.pieces '/' path) ∧
      (Text.pieces '/' directory = front ∨ Text.pieces '/' directory = front ++ [[]]) := by
  have hempty : directory.isEmpty = false := by simpa using hne
  cases hslash : Text.endsIn '/' directory with
  | true =>
    obtain ⟨stem, rfl⟩ : ∃ stem, directory = stem ++ ['/'] :=
      List.getLast?_eq_some_iff.mp (by simpa [Text.endsIn] using hslash)
    have hpieces : ∀ more, Text.pieces '/' (stem ++ ['/'] ++ more) =
        Text.pieces '/' stem ++ Text.pieces '/' more := by
      intro more
      rw [List.append_assoc, List.singleton_append, Text.pieces_append]
    refine ⟨Text.pieces '/' stem, fun path hpath => ?_, .inr ?_⟩
    · rw [Path.joined, hpath, hempty, hslash]
      simp only [hpieces, Bool.false_eq_true, Bool.or_true, if_true, if_false]
    · simpa [Text.pieces] using hpieces []
  | false =>
    refine ⟨Text.pieces '/' directory, fun path hpath => ?_, .inl rfl⟩
    rw [Path.joined, hpath, hempty, hslash]
    simp only [Text.pieces_append, Bool.false_eq_true, Bool.or_false, if_false]

theorem exists_joined_eq_append {directory : Text} (hne : directory ≠ []) :
    ∃ front, ∀ path, Text.startsWith path ['/'] = false →
      Path.joined directory path = front ++ '/' :: path := by
  have hempty : directory.isEmpty = false := by simpa using hne
  cases hslash : Text.endsIn '/' directory with
  | true =>
    obtain ⟨stem, rfl⟩ : ∃ stem, directory = stem ++ ['/'] :=
      List.getLast?_eq_some_iff.mp (by simpa [Text.endsIn] using hslash)
    exact ⟨stem, fun path hpath => by simp [Path.joined, hpath, hslash]⟩
  | false => exact ⟨directory, fun path hpath => by simp [Path.joined, hpath, hempty, hslash]⟩

theorem joined_ne_nil {directory : Text} (hne : directory ≠ []) (path : Text) :
    Path.joined directory path ≠ [] := by
  rw [Path.joined]
  split_ifs with hpath
  · rintro rfl
    cases hpath
  · simp [hne]
  · simp

theorem mem_joined {c : Char} (hc : c ≠ '/') {directory path : Text}
    (hpath : Text.startsWith path ['/'] = false) :
    c ∈ Path.joined directory path ↔ c ∈ directory ∨ c ∈ path := by
  rw [Path.joined, hpath, if_neg Bool.false_ne_true]
  split <;> simp [hc]

/-- A slash more between a directory and a path leads nowhere else. -/
theorem locate_append_slash (world : World) {directory path : Text} (hne : directory ≠ [])
    (hpath : Text.startsWith path ['/'] = false) :
    world.locate (directory ++ '/' :: path) = world.locate (Path.joined directory path) := by
  have hmem : '\x00' ∈ directory ++ '/' :: path ↔ '\x00' ∈ Path.joined directory path := by
    rw [mem_joined (by decide) hpath]
    simp
  by_cases hnul : '\x00' ∈ Path.joined directory path
  · rw [locate_of_mem_nul hnul, locate_of_mem_nul (hmem.mpr hnul)]
  obtain ⟨front, hpieces, hdirectory⟩ := exists_pieces_joined hne
  rw [locate_eq (joined_ne_nil hne path) hnul, locate_eq (by simp) (hmem.not.mpr hnul),
    origin_joined hne hpath, origin_append hne, hpieces path hpath, Text.pieces_append]
  obtain hdirectory | hdirectory := hdirectory
  · rw [hdirectory]
  · -- the directory ends in a slash itself, so an empty name stands in between
    have hstays : ∀ place node,
        world.disk.advance place node ([[]] ++ Text.pieces '/' path) =
          world.disk.advance place node (Text.pieces '/' path) := by
      intro place node
      obtain ⟨next, rest, hnext⟩ := List.exists_cons_of_ne_nil (Text.pieces_ne_nil '/' path)
      rw [hnext]
      exact Disk.advance_nil_of_cons ..
    simp only [hdirectory, List.append_assoc, Disk.follow_append_congr hstays]

/-- A path that ends in a slash is gone on behind the slash. -/
theorem joined_joined_slash {directory path name : Text}
    (hpath : Text.startsWith (path ++ ['/']) ['/'] = false)
    (hname : Text.startsWith name ['/'] = false) :
    Path.joined (Path.joined directory (path ++ ['/'])) name =
      Path.joined directory (path ++ '/' :: name) := by
  have hwhole : Text.startsWith (path ++ '/' :: name) ['/'] = false := by
    cases path with
    | nil => cases hpath
    | cons c rest => exact hpath
  have hends : ∀ front : Text, Text.endsIn '/' (front ++ (path ++ ['/'])) = true := by
    intro front
    rw [← List.append_assoc, Text.endsIn, List.getLast?_concat]
    rfl
  rw [Path.joined, Path.joined, Path.joined, hname, hpath, hwhole]
  simp only [Bool.false_eq_true, if_false]
  split
  · simp [hends]
  · rw [List.append_cons directory '/' (path ++ ['/']), hends]
    simp

/-- The two ways to write a dot behind a directory. -/
abbrev IsDot (path : Text) : Prop := path = ['.'] ∨ path = ['.', '/']

/-- A path that is no more than a name that stays leads to what is found in front of it, if the name
can be taken along there. -/
theorem locate_joined_stays (world : World) {directory path name : Text} (hne : directory ≠ [])
    (hstart : Text.startsWith path ['/'] = false) (hplain : '\x00' ∉ path) (hname : Disk.Stays name)
    (hpath : ∀ place node, world.disk.advance place node (Text.pieces '/' path) =
      world.disk.advance place node [name]) :
    world.locate (Path.joined directory path) = Disk.staying name (world.locate directory) := by
  by_cases hnul : '\x00' ∈ directory
  · have hmem : '\x00' ∈ Path.joined directory path :=
      (mem_joined (by decide) hstart).mpr (.inl hnul)
    rw [locate_of_mem_nul hnul, locate_of_mem_nul hmem]
    rfl
  have hmem : '\x00' ∉ Path.joined directory path := by
    rw [mem_joined (by decide) hstart]
    exact not_or.mpr ⟨hnul, hplain⟩
  obtain ⟨front, hpieces, hdirectory⟩ := exists_pieces_joined hne
  rw [locate_eq hne hnul, locate_eq (joined_ne_nil hne path) hmem, origin_joined hne hstart,
    hpieces path hstart]
  cases world.origin directory with
  | error error => rfl
  | ok place =>
    have hend : world.disk.follow Disk.linkLimit place (front ++ Text.pieces '/' path) =
        Disk.staying name (world.disk.follow Disk.linkLimit place front) := by
      rw [Disk.follow_append_congr hpath, Disk.follow_append_stays hname]
    refine hend.trans ?_
    obtain hdirectory | hdirectory := hdirectory
    · rw [hdirectory]
      rfl
    · rw [hdirectory]
      show _ = Disk.staying name (world.disk.follow Disk.linkLimit place (front ++ [[]]))
      rw [Disk.follow_append_stays (.inl rfl), Disk.staying_staying_nil]

/-- A dot behind a directory leads to what is found there, if names can be looked up in it. -/
theorem locate_joined_dot_end (world : World) {directory path : Text} (hne : directory ≠ [])
    (hpath : IsDot path) :
    world.locate (Path.joined directory path) = Disk.staying ['.'] (world.locate directory) := by
  rcases hpath with rfl | rfl
  · exact world.locate_joined_stays hne rfl (by decide) (.inr rfl) fun _ _ => rfl
  · exact world.locate_joined_stays hne rfl (by decide) (.inr rfl)
      fun place node => Disk.advance_dot_nil ..

/-- With a dot behind its path a directory can be searched where it could. -/
theorem isSearchable_joined_dot {world : World} {directory : Text}
    (h : world.isSearchable directory = true) (hne : directory ≠ []) :
    world.isSearchable (Path.joined directory ['.']) = true := by
  rw [isSearchable, lookup] at h ⊢
  rw [locate_joined_dot_end world hne (.inl rfl)]
  cases hlocate : world.locate directory with
  | error error => simp [hlocate, Except.map] at h
  | ok found =>
    obtain ⟨place, node⟩ := found
    rw [hlocate] at h
    cases node with
    | directory listable searchable =>
      obtain rfl : searchable = true := h
      rfl
    | _ => cases h

/-- With a dot behind its path a directory can be read that can be read and searched. -/
theorem list_joined_dot_iff {world : World} {directory path : Text} (hne : directory ≠ [])
    (hpath : IsDot path) {children : List (Text × Node)} :
    world.list (Path.joined directory path) = .ok children ↔
      world.list directory = .ok children ∧ world.isSearchable directory = true := by
  rw [list, list, isSearchable, lookup, locate_joined_dot_end world hne hpath]
  cases world.locate directory with
  | error error => simp [Disk.staying, Except.map]
  | ok found =>
    obtain ⟨place, node⟩ := found
    cases node with
    | directory listable searchable =>
      cases listable <;> cases searchable <;>
        simp [Disk.staying, Disk.stayError?, Node.isDirectory, Node.isSearchable, Except.map]
    | _ => simp [Disk.staying, Disk.stayError?, Node.isDirectory]

theorem joined_joined_dot {directory path name : Text} (hne : directory ≠ []) (hpath : IsDot path)
    (hname : Text.startsWith name ['/'] = false) :
    Path.joined (Path.joined directory path) name =
      Path.joined directory ('.' :: '/' :: name) := by
  have hempty : directory.isEmpty = false := by simpa using hne
  have hdot : Text.startsWith ('.' :: '/' :: name) ['/'] = false := rfl
  have hstart : Text.startsWith path ['/'] = false := by rcases hpath with rfl | rfl <;> rfl
  have hends : ∀ front : Text, Text.endsIn '/' (front ++ path) = Text.endsIn '/' path := by
    intro front
    rcases hpath with rfl | rfl <;> simp [Text.endsIn]
  have hwhole : ∀ front : Text, (front ++ path).isEmpty = false := by
    intro front
    rcases hpath with rfl | rfl <;> simp
  rw [Path.joined, Path.joined, Path.joined, hname, hdot, hstart, hempty]
  cases hslash : Text.endsIn '/' directory with
  | true =>
    simp only [Bool.false_eq_true, if_false, Bool.or_true, if_true, hwhole, hends]
    rcases hpath with rfl | rfl <;> simp [Text.endsIn]
  | false =>
    simp only [Bool.false_eq_true, if_false, Bool.or_false]
    rw [List.append_cons directory '/' path, hwhole, hends]
    rcases hpath with rfl | rfl <;> simp [Text.endsIn]

/-- A dot in front of a name leaves it where it is. -/
theorem locate_joined_dot (world : World) {directory path name : Text} (hne : directory ≠ [])
    (hpath : IsDot path) (hname : Text.startsWith name ['/'] = false) (hfirst : name ≠ []) :
    world.locate (Path.joined (Path.joined directory path) name) =
      world.locate (Path.joined directory name) := by
  have hdot : Text.startsWith ('.' :: '/' :: name) ['/'] = false := rfl
  have hmem : '\x00' ∈ Path.joined directory ('.' :: '/' :: name) ↔
      '\x00' ∈ Path.joined directory name := by
    rw [mem_joined (by decide) hdot, mem_joined (by decide) hname]
    simp
  rw [joined_joined_dot hne hpath hname]
  by_cases hnul : '\x00' ∈ Path.joined directory name
  · rw [locate_of_mem_nul hnul, locate_of_mem_nul (hmem.mpr hnul)]
  obtain ⟨front, hpieces, -⟩ := exists_pieces_joined hne
  have hleave : ∀ place node,
      world.disk.advance place node (Text.pieces '/' ('.' :: '/' :: name)) =
        world.disk.advance place node (Text.pieces '/' name) := by
    intro place node
    obtain ⟨c, rest, rfl⟩ := List.exists_cons_of_ne_nil hfirst
    have hc : c ≠ '/' := by
      rintro rfl
      cases hname
    obtain ⟨first, more, hpiece⟩ := Text.exists_pieces_cons hc rest
    rw [show Text.pieces '/' ('.' :: '/' :: c :: rest) = ['.'] :: Text.pieces '/' (c :: rest) from
      Text.pieces_append '/' ['.'] (c :: rest), hpiece]
    exact Disk.advance_stays_of_ne_nil (.inr rfl) _ place node (List.cons_ne_nil c first) more
  rw [locate_eq (joined_ne_nil hne _) hnul, locate_eq (joined_ne_nil hne _) (hmem.not.mpr hnul),
    origin_joined hne hname, origin_joined hne hdot, hpieces _ hname, hpieces _ hdot]
  simp only [Disk.follow_append_congr hleave]

/-- Where names can be looked up a dot in front of nothing makes no difference either. -/
theorem locate_joined_dot_of_isSearchable {world : World} {directory path name : Text}
    (h : world.isSearchable directory = true) (hne : directory ≠ []) (hpath : IsDot path)
    (hname : Text.startsWith name ['/'] = false) :
    world.locate (Path.joined (Path.joined directory path) name) =
      world.locate (Path.joined directory name) := by
  by_cases hfirst : name = []
  · -- `d/./` and `d/` lead to the directory itself
    obtain ⟨⟨place, node⟩, hlocate, hnode⟩ : ∃ found, world.locate directory = .ok found ∧
        found.2.isSearchable = true := by
      rw [isSearchable, lookup] at h
      cases hlocate : world.locate directory with
      | error error => simp [hlocate, Except.map] at h
      | ok found => exact ⟨found, rfl, by simpa [hlocate, Except.map] using h⟩
    have hstay : ∀ last, Disk.stayError? last node = none := by
      cases node <;> simp_all [Disk.stayError?, Node.isSearchable, Node.isDirectory]
    have hnil : world.locate (Path.joined directory []) =
        Disk.staying [] (world.locate directory) :=
      world.locate_joined_stays hne rfl (by decide) (.inl rfl) fun _ _ => rfl
    rw [hfirst, joined_joined_dot hne hpath rfl, locate_joined_dot_end world hne (.inr rfl), hnil,
      hlocate]
    simp only [Disk.staying, hstay]
  · exact world.locate_joined_dot hne hpath hname hfirst

theorem isDirectory_joined_dot (world : World) {directory dot name : Text} (hne : directory ≠ [])
    (hdot : IsDot dot) (hname : '/' ∉ name) (hfirst : name ≠ []) :
    world.isDirectory (Path.joined (Path.joined directory dot) name) =
      world.isDirectory (Path.joined directory name) := by
  rw [isDirectory, isDirectory, lookup, lookup,
    world.locate_joined_dot hne hdot (Text.startsWith_of_not_mem hname) hfirst]

/-- A dot in front of a name makes no program of it and takes none away: a file is found where it
was, and its suffix is that of its name. -/
theorem isExecutable_joined_dot (world : World) {directory dot name : Text} (hne : directory ≠ [])
    (hdot : IsDot dot) (hname : '/' ∉ name) (hfirst : name ≠ []) :
    world.isExecutable (Path.joined (Path.joined directory dot) name) =
      world.isExecutable (Path.joined directory name) := by
  have hstart := Text.startsWith_of_not_mem hname
  obtain ⟨front, hjoined⟩ := exists_joined_eq_append hne
  have hsuffix : (Path.splitSuffix (Path.joined (Path.joined directory dot) name)).2 =
      (Path.splitSuffix (Path.joined directory name)).2 := by
    rw [joined_joined_dot hne hdot hstart, hjoined _ hstart, hjoined _ rfl,
      List.append_cons front, List.append_cons (front ++ ['/']),
      Path.snd_splitSuffix_append_slash hname, Path.snd_splitSuffix_append_slash hname]
  rw [isExecutable, isExecutable, lookup, lookup, world.locate_joined_dot hne hdot hstart hfirst,
    hsuffix]

end World

/-- Behind a dot a name leads into a directory where it does without the dot. -/
theorem Entry.leadsIn_joined_dot (world : World) {directory dot name : Text}
    (hne : directory ≠ []) (hdot : World.IsDot dot) (hname : '/' ∉ name) (hfirst : name ≠ [])
    (node : Node) :
    leadsIn world (Path.joined (Path.joined directory dot) name) node =
      leadsIn world (Path.joined directory name) node := by
  have hstart := Text.startsWith_of_not_mem hname
  have htarget : world.target (Path.joined (Path.joined directory dot) name) node =
      world.target (Path.joined directory name) node := by
    cases node with
    | link target =>
      simp only [World.target, World.lookup, world.locate_joined_dot hne hdot hstart hfirst]
    | _ => rfl
  rw [leadsIn, leadsIn, htarget]

end PaneCompletion
