import PaneCompletion.Proofs.World.Disk
import PaneCompletion.Proofs.World.Expansion

/-!
# What stands in a directory

A directory is read as names with what stands there, links not followed; each of these names can
also be looked up, as a path behind the directory's, if names can be looked up there at all. On a
proper disk the two agree then: what is read leads into a directory where the path is that of one
(`Entry.leadsIn_eq_isDirectory`), and a file that is found under a single name is among what is read
(`World.mem_of_isFile`). The two dot names are directories as well (`World.isDirectory_dots`).

The order in which a disk holds its places matters to the order in which a directory is read, and to
nothing else (`World.list_reordered`).

1. names in a directory;
2. worlds in another order.
-/

namespace PaneCompletion

/-! ## Names in a directory -/

namespace World

variable {world : World} {directory : Text} {children : List (Text × Node)}

theorem list_eq_ok_iff :
    world.list directory = .ok children ↔
      ∃ place searchable, world.locate directory = .ok (place, .directory true searchable) ∧
        children = world.disk.children place := by
  constructor
  · intro h
    rw [list] at h
    split at h
    · cases h
    · next place searchable hlocate => exact ⟨place, searchable, hlocate, (Except.ok.inj h).symm⟩
    · cases h
    · cases h
  · rintro ⟨place, searchable, hlocate, rfl⟩
    rw [list, hlocate]

theorem of_locate_eq_ok {path : Text} {found : Place × Node} (h : world.locate path = .ok found) :
    path ≠ [] ∧ '\x00' ∉ path := by
  rw [locate] at h
  split at h
  · cases h
  · next hnul =>
    split at h
    · cases h
    · next hne => exact ⟨by simpa using hne, by simpa [refuses] using hnul⟩

/-- A path is followed from a place that is reached through directories only. -/
theorem accessible_origin {path : Text} {start : Place} (h : world.origin path = .ok start) :
    world.disk.Accessible start := by
  rw [origin] at h
  split at h
  · cases h
    exact Disk.accessible_root _
  · rw [here] at h
    cases hfollow : world.disk.opened.follow Disk.linkLimit []
        (Text.pieces '/' world.workingDirectory) with
    | error error =>
      rw [hfollow] at h
      cases h
    | ok found =>
      rw [hfollow] at h
      cases h
      exact Disk.accessible_of_opened
        (Disk.exists_follow_append (Disk.accessible_root _) hfollow).2.1

/-- What is found has been followed from the place where its path begins. -/
theorem exists_follow_of_locate {path : Text} {found : Place × Node}
    (h : world.locate path = .ok found) :
    ∃ start, world.origin path = .ok start ∧ world.disk.Accessible start ∧
      world.disk.follow Disk.linkLimit start (Text.pieces '/' path) = .ok found := by
  obtain ⟨hne, hnul⟩ := of_locate_eq_ok h
  rw [locate_eq hne hnul] at h
  cases horigin : world.origin path with
  | error error =>
    rw [horigin] at h
    cases h
  | ok start =>
    rw [horigin] at h
    exact ⟨start, rfl, accessible_origin horigin, h⟩

/-- A name is looked up behind the names along which its directory is. -/
theorem exists_locate_joined_eq (hne : directory ≠ []) (hnul : '\x00' ∉ directory) :
    ∃ front, (∀ (world : World) (name : Text), '/' ∉ name → '\x00' ∉ name →
        world.locate (Path.joined directory name) = world.origin directory >>= fun place =>
          world.disk.follow Disk.linkLimit place (front ++ [name])) ∧
      (Text.pieces '/' directory = front ∨ Text.pieces '/' directory = front ++ [[]]) := by
  obtain ⟨front, hpieces, hdirectory⟩ := exists_pieces_joined hne
  refine ⟨front, fun world name hslash hplain => ?_, hdirectory⟩
  have hstart := Text.startsWith_of_not_mem hslash
  have hmem : '\x00' ∉ Path.joined directory name := by
    rw [mem_joined (by decide) hstart]
    exact not_or.mpr ⟨hnul, hplain⟩
  rw [locate_eq (joined_ne_nil hne name) hmem, origin_joined hne hstart, hpieces name hstart,
    Text.pieces_eq_singleton hslash]

/-- What a path leads to is what stands at its place, and names behind the path are looked up from
there. -/
theorem exists_follow_joined {place : Place} {node : Node}
    (h : world.locate directory = .ok (place, node)) :
    node = world.disk.nodeAt place ∧ world.disk.Accessible place ∧
      ∃ links, ∀ name, '/' ∉ name → '\x00' ∉ name →
        world.locate (Path.joined directory name) = world.disk.follow links place [name] := by
  obtain ⟨hne, hnul⟩ := of_locate_eq_ok h
  obtain ⟨start, horigin, hstart, hfollow⟩ := exists_follow_of_locate h
  obtain ⟨front, hjoined, hdirectory⟩ := exists_locate_joined_eq hne hnul
  have hfront : world.disk.follow Disk.linkLimit start front = .ok (place, node) := by
    obtain hdirectory | hdirectory := hdirectory
    · rwa [hdirectory] at hfollow
    · rw [hdirectory, Disk.follow_append_stays (.inl rfl)] at hfollow
      exact (Disk.of_staying_eq_ok hfollow).1
  obtain ⟨hnode, haccessible, links, hmore⟩ := Disk.exists_follow_append hstart hfront
  refine ⟨hnode, haccessible, links, fun name hslash hplain => ?_⟩
  rw [hjoined world name hslash hplain, horigin]
  exact hmore [name]

/-- A directory that can be read is a place, and the names in it are looked up from there. -/
theorem exists_place_of_list (h : world.list directory = .ok children) :
    ∃ place links, children = world.disk.children place ∧
      (world.disk.nodeAt place).isSearchable = world.isSearchable directory ∧
      world.disk.Accessible place ∧
      ∀ name, '/' ∉ name → '\x00' ∉ name →
        world.locate (Path.joined directory name) = world.disk.follow links place [name] := by
  obtain ⟨place, searchable, hlocate, rfl⟩ := list_eq_ok_iff.mp h
  obtain ⟨hnode, haccessible, links, hfollow⟩ := exists_follow_joined hlocate
  refine ⟨place, links, rfl, ?_, haccessible, hfollow⟩
  rw [← hnode, isSearchable, lookup, hlocate]
  rfl

theorem isDirectory_of_list (h : world.list directory = .ok children) :
    world.isDirectory directory = true := by
  obtain ⟨place, searchable, hlocate, -⟩ := list_eq_ok_iff.mp h
  rw [isDirectory, lookup, hlocate]
  rfl

theorem ne_nil_of_isDirectory (h : world.isDirectory directory = true) : directory ≠ [] := by
  rintro rfl
  cases h

theorem ne_nil_of_list (h : world.list directory = .ok children) : directory ≠ [] :=
  ne_nil_of_isDirectory (isDirectory_of_list h)

/-- Only in a directory a name is found. -/
theorem isDirectory_of_locate_joined (hne : directory ≠ []) {name : Text} (hname : '/' ∉ name)
    {found : Place × Node} (h : world.locate (Path.joined directory name) = .ok found) :
    world.isDirectory directory = true := by
  have hnul := (of_locate_eq_ok h).2
  rw [mem_joined (by decide) (Text.startsWith_of_not_mem hname), not_or] at hnul
  obtain ⟨front, hjoined, hdirectory⟩ := exists_locate_joined_eq hne hnul.1
  rw [hjoined world name hname hnul.2] at h
  cases horigin : world.origin directory with
  | error error =>
    rw [horigin] at h
    cases h
  | ok start =>
    rw [horigin] at h
    obtain ⟨place, node, hfront, hnode⟩ := Disk.exists_follow_of_append h
    have hlocate : world.locate directory = .ok (place, node) := by
      rw [locate_eq hne hnul.1, horigin]
      obtain hdirectory | hdirectory := hdirectory
      · rw [hdirectory]
        exact hfront
      · have hstay : Disk.stayError? [] node = none := by simp [Disk.stayError?, hnode]
        rw [hdirectory]
        show world.disk.follow Disk.linkLimit start (front ++ [[]]) = _
        simp only [Disk.follow_append_stays (.inl rfl), hfront, Disk.staying, hstay]
    rw [isDirectory, lookup, hlocate]
    exact hnode

theorem isName_of_mem (hdisk : world.disk.Proper) (hlist : world.list directory = .ok children)
    {name : Text} (hmem : name ∈ children.map (·.1)) : Path.IsName name := by
  obtain ⟨place, -, -, rfl⟩ := list_eq_ok_iff.mp hlist
  obtain ⟨⟨name', node⟩, hchild, hname⟩ := List.mem_map.mp hmem
  obtain rfl : name' = name := hname
  have hplace := List.mem_map_of_mem (f := (·.1)) (Disk.mem_children.mp hchild)
  exact (hdisk.names _ hplace name' (by simp)).1

/-- The names that are there are single ones, the two dot names among them. -/
theorem no_slash_of_there (hdisk : world.disk.Proper) (hlist : world.list directory = .ok children)
    {name : Text} (hthere : name ∈ ['.'] :: ['.', '.'] :: children.map (·.1)) :
    '/' ∉ name ∧ name ≠ [] := by
  rw [List.mem_cons, List.mem_cons] at hthere
  obtain rfl | rfl | hmem := hthere
  · decide
  · decide
  · have hname := isName_of_mem hdisk hlist hmem
    exact ⟨hname.no_slash, hname.ne_nil⟩

/-- What is read in a directory is found by its path, unless it is a link. -/
theorem lookup_child (hdisk : world.disk.Proper) (hlist : world.list directory = .ok children)
    (hsearch : world.isSearchable directory = true) {name : Text} {node : Node}
    (hmem : (name, node) ∈ children) (hlink : ∀ target, node ≠ .link target) :
    world.lookup (Path.joined directory name) = .ok node := by
  obtain ⟨place, links, rfl, hplace, -, hlocate⟩ := exists_place_of_list hlist
  have hnode := Disk.mem_children.mp hmem
  obtain ⟨hname, hnul⟩ := hdisk.names _ (List.mem_map_of_mem hnode) name (by simp)
  rw [lookup, hlocate name hname.no_slash hnul,
    Disk.follow_child (hplace.trans hsearch) hname (Disk.node?_of_mem hdisk.nodup hnode) hlink]
  rfl

/-- The two names that every directory has are directories. -/
theorem isDirectory_dots (hlist : world.list directory = .ok children)
    (hsearch : world.isSearchable directory = true) {name : Text}
    (hname : name = ['.'] ∨ name = ['.', '.']) :
    world.isDirectory (Path.joined directory name) = true := by
  obtain ⟨place, links, rfl, hplace, haccessible, hlocate⟩ := exists_place_of_list hlist
  have hplain : '/' ∉ name ∧ '\x00' ∉ name := by obtain rfl | rfl := hname <;> decide
  obtain ⟨found, node, hfollow, hnode⟩ := Disk.exists_follow_dots (hplace.trans hsearch) haccessible
    (hname.imp_left .inr) links
  rw [isDirectory, lookup, hlocate name hplain.1 hplain.2, hfollow]
  exact hnode

theorem exists_locate_of_isFile {path : Text} (h : world.isFile path = true) :
    ∃ found, world.locate path = .ok found ∧ found.2.isFile = true := by
  rw [isFile, lookup] at h
  cases hlocate : world.locate path with
  | error error =>
    rw [hlocate] at h
    cases h
  | ok found =>
    rw [hlocate] at h
    exact ⟨found, rfl, h⟩

theorem isFile_of_isExecutable {path : Text} (h : world.isExecutable path = true) :
    world.isFile path = true := by
  rw [isExecutable] at h
  rw [isFile]
  cases hlookup : world.lookup path with
  | error error =>
    rw [hlookup] at h
    cases h
  | ok node =>
    rw [hlookup] at h
    exact (Bool.and_eq_true_iff.mp h).1

theorem not_isDirectory_of_isExecutable {path : Text} (h : world.isExecutable path = true) :
    world.isDirectory path = false := by
  obtain ⟨⟨place, node⟩, hlocate, hfile⟩ := exists_locate_of_isFile (isFile_of_isExecutable h)
  rw [isDirectory, lookup, hlocate]
  cases node <;> first | rfl | cases hfile

/-- A directory in which a name is found can be searched. -/
theorem isSearchable_of_locate_joined (hlist : world.list directory = .ok children) {name : Text}
    (hname : '/' ∉ name) (hfirst : name ≠ []) {found : Place × Node}
    (h : world.locate (Path.joined directory name) = .ok found) :
    world.isSearchable directory = true := by
  have hnul : '\x00' ∉ name := fun hmem => (of_locate_eq_ok h).2
    ((mem_joined (by decide) (Text.startsWith_of_not_mem hname)).mpr (.inr hmem))
  obtain ⟨place, links, -, hplace, -, hfollow⟩ := exists_place_of_list hlist
  rw [hfollow name hname hnul] at h
  rw [← hplace]
  exact Disk.isSearchable_of_follow hfirst h

theorem isSearchable_of_isExecutable_joined (hlist : world.list directory = .ok children)
    {name : Text} (hname : '/' ∉ name) (hfirst : name ≠ [])
    (h : world.isExecutable (Path.joined directory name) = true) :
    world.isSearchable directory = true := by
  obtain ⟨found, hlocate, -⟩ := exists_locate_of_isFile (isFile_of_isExecutable h)
  exact isSearchable_of_locate_joined hlist hname hfirst hlocate

/-- A file that is found in a directory under a single name is among what is read there. -/
theorem mem_of_isFile (hlist : world.list directory = .ok children)
    (hsearch : world.isSearchable directory = true) {name : Text} (hname : '/' ∉ name)
    (h : world.isFile (Path.joined directory name) = true) : name ∈ children.map (·.1) := by
  obtain ⟨found, hlocate, hfile⟩ := exists_locate_of_isFile h
  have hnul : '\x00' ∉ name := fun hmem => (of_locate_eq_ok hlocate).2
    ((mem_joined (by decide) (Text.startsWith_of_not_mem hname)).mpr (.inr hmem))
  obtain ⟨place, links, rfl, hplace, haccessible, hfollow⟩ := exists_place_of_list hlist
  rw [hsearch] at hplace
  rw [hfollow name hname hnul] at hlocate
  by_cases hdots : Disk.Stays name ∨ name = ['.', '.']
  · obtain ⟨place', node, hdirectory, hopen⟩ :=
      Disk.exists_follow_dots hplace haccessible hdots links
    obtain rfl := Except.ok.inj (hdirectory.symm.trans hlocate)
    cases node <;> cases hopen
    cases hfile
  · obtain ⟨⟨hne, hhere⟩, hparent⟩ := (not_or.mp hdots).imp_left not_or.mp
    have hname' : Path.IsName name := ⟨hne, hhere, hparent, hname⟩
    cases hchild : world.disk.node? (place ++ [name]) with
    | none =>
      rw [Disk.follow_missing hplace hname' hchild] at hlocate
      cases hlocate
    | some child =>
      have hmem := Disk.mem_children.mpr (Disk.mem_of_node? (by simp) hchild)
      exact List.mem_map_of_mem hmem

end World

/-- What is read in a directory leads into a directory where its path is that of one. -/
theorem Entry.leadsIn_eq_isDirectory {world : World} (hdisk : world.disk.Proper) {directory : Text}
    {children : List (Text × Node)} (hlist : world.list directory = .ok children)
    (hsearch : world.isSearchable directory = true) {name : Text} {node : Node}
    (hmem : (name, node) ∈ children) :
    leadsIn world (Path.joined directory name) node =
      world.isDirectory (Path.joined directory name) := by
  rw [World.isDirectory]
  cases node with
  | link target =>
    rw [leadsIn, World.target]
    cases world.lookup (Path.joined directory name) with
    | ok found => rfl
    | error error => cases error <;> rfl
  | _ =>
    rw [world.lookup_child hdisk hlist hsearch hmem (by simp)]
    rfl

/-! ## Worlds in another order -/

namespace World

variable {world : World} {nodes : List (Place × Node)}

/-- The world with its places in another order. -/
def reordered (world : World) (nodes : List (Place × Node)) : World :=
  { world with disk := { nodes } }

theorem expandVariables_reordered (world : World) (nodes : List (Place × Node)) (text : Text) :
    (world.reordered nodes).expandVariables text = world.expandVariables text := by
  have henvironment : (world.reordered nodes).environment = world.environment := rfl
  exact expandVariables_congr henvironment text

section Reordered

variable (hdisk : world.disk.Proper) (h : nodes.Perm world.disk.nodes)
include hdisk h

theorem locate_reordered (path : Text) :
    (world.reordered nodes).locate path = world.locate path := by
  have hnode : ({ nodes } : Disk).node? = world.disk.node? := Disk.node?_of_perm hdisk h
  have hopened : ({ nodes } : Disk).opened.node? = world.disk.opened.node? := by
    funext place
    rw [Disk.node?_opened, Disk.node?_opened, hnode]
  simp only [locate, origin, here, reordered, Disk.follow_congr hnode, Disk.follow_congr hopened]

theorem isExecutable_reordered (path : Text) :
    (world.reordered nodes).isExecutable path = world.isExecutable path := by
  rw [isExecutable, isExecutable, lookup, lookup, locate_reordered hdisk h]
  rfl

/-- In another order a directory can be read where it could, and the same is read in it. -/
theorem list_reordered {directory : Text} {children : List (Text × Node)}
    (hlist : world.list directory = .ok children) :
    ∃ others, (world.reordered nodes).list directory = .ok others ∧ others.Perm children := by
  obtain ⟨place, searchable, hlocate, rfl⟩ := list_eq_ok_iff.mp hlist
  have hother := (locate_reordered hdisk h directory).trans hlocate
  exact ⟨_, list_eq_ok_iff.mpr ⟨place, searchable, hother, rfl⟩, h.filterMap _⟩

end Reordered

end World

end PaneCompletion
