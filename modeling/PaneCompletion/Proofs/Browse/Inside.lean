import PaneCompletion.Proofs.Browse.Offer

/-!
# Completing inside a directory

Whichever way a fragment is completed, the matches grow by what is offered for it
(`Browser.adds_complete`), so directories can be completed in one after the other. Of executable
files, programs are offered of the directory where the fragment looks, or the name it looks for
where that cannot be read (`Browser.Seeks.mem_texts_offered`). A text without a tilde or a reference
that stands for something else is completed inside a directory as it is (`Browser.Stays`): it looks
in that directory, and for itself. The directory is read with a dot behind its path then.

1. what is offered;
2. texts that are completed as they are.
-/

namespace PaneCompletion

/-! ## What is offered -/

/-- A text completes a name to an executable file in a directory that is read under some path: it is
on offer there, or the name itself where the directory cannot be read. -/
def Entry.Completes (world : World) (ignoreCase : Bool) (directory name text : Text) : Prop :=
  match world.list directory with
  | .ok children => OnOffer world ignoreCase directory name .executables children text
  | .error _ => text = name

namespace Browser

variable {browser : Browser} {world : World} {base : Option Text} {fragment : Text}
  {filter : EntryFilter}

/-- What is offered for a fragment, in whichever group it comes. -/
def offered (browser : Browser) (world : World) (fragment : Text) (filter : EntryFilter)
    (base : Option Text) : List Candidate :=
  if isTildeWord fragment then [browser.homeCandidate world fragment]
  else
    let directory := browser.directoryOf world fragment base
    let name := (browser.split world fragment).2
    match world.list directory with
    | .error _ => [⟨name, .path⟩]
    | .ok children =>
      browser.candidatesAmong world directory name filter (Entry.among world directory children)

theorem offered_of_error (h : isTildeWord fragment = false) {error : LookupError}
    (hlist : world.list (browser.directoryOf world fragment base) = .error error) :
    browser.offered world fragment filter base = [⟨(browser.split world fragment).2, .path⟩] := by
  simp only [offered, h, hlist, Bool.false_eq_true, if_false]

theorem offered_of_list (h : isTildeWord fragment = false) {children : List (Text × Node)}
    (hlist : world.list (browser.directoryOf world fragment base) = .ok children) :
    browser.offered world fragment filter base =
      browser.candidatesAmong world (browser.directoryOf world fragment base)
        (browser.split world fragment).2 filter
        (Entry.among world (browser.directoryOf world fragment base) children) := by
  simp only [offered, h, hlist, Bool.false_eq_true, if_false]

theorem adds_complete (browser : Browser) (world : World) (fragment : Text) (filter : EntryFilter)
    (base : Option Text) :
    Filling.Adds (browser.complete world fragment filter base)
      (browser.offered world fragment filter base) := by
  cases htilde : isTildeWord fragment with
  | true =>
    rw [complete_of_tildeWord htilde, offered, if_pos htilde]
    exact Filling.adds_addAll _
  | false =>
    cases hlist : world.list (browser.directoryOf world fragment base) with
    | error error =>
      rw [complete_of_error htilde hlist, offered_of_error htilde hlist]
      exact Filling.adds_addAll _
    | ok children =>
      rw [complete_of_list htilde hlist, offered_of_list htilde hlist]
      have hecho : Filling.Adds (if filter ≠ .executables then
          Filling.setEcho ⟨(browser.split world fragment).2, .path⟩ else pure ()) [] := by
        split
        · exact Filling.adds_setEcho _
        · exact Filling.adds_nothing
      exact (Filling.adds_addAll _).bind_nothing (Filling.adds_finishGroup.bind_nothing hecho)

theorem kind_of_mem_offered {candidate : Candidate}
    (h : candidate ∈ browser.offered world fragment filter base) : candidate.kind = .path := by
  unfold offered at h
  split at h
  · rw [List.mem_singleton.mp h]
    rfl
  · dsimp only at h
    split at h
    · rw [List.mem_singleton.mp h]
    · exact kind_of_mem_candidatesAmong h

theorem baseIn_some {directory : Text} (hne : directory ≠ []) (browser : Browser) (world : World) :
    browser.baseIn world (some directory) = directory := by
  obtain ⟨c, rest, rfl⟩ := List.exists_cons_of_ne_nil hne
  rfl

/-- Of executable files a fragment is offered what completes its name in the directory where it
looks, as that is read. -/
theorem Seeks.mem_texts_offered {directory name : Text}
    (h : browser.Seeks world base fragment directory name) (hdisk : world.disk.Proper)
    (hword : isTildeWord fragment = false) {text : Text} :
    text ∈ (browser.offered world fragment .executables base).map (·.text) ↔
      Entry.Completes world browser.settings.ignoreCase (browser.readAt world fragment directory)
        name text := by
  obtain ⟨hname, hseen⟩ := h.eq_of_split
  rw [Entry.Completes, ← hseen]
  cases hlist : world.list (browser.directoryOf world fragment base) with
  | error error =>
    rw [offered_of_error hword hlist, hname]
    exact List.mem_singleton
  | ok children =>
    rw [offered_of_list hword hlist, hname]
    exact Entry.mem_texts_candidatesAmong_executables hdisk hlist browser

/-! ## Texts that are completed as they are -/

/-- A text that is completed as it is: no tilde is written out in it, and no reference brings in a
slash. -/
structure Stays (browser : Browser) (world : World) (typed : Text) : Prop where
  tilde : world.expandTilde (browser.settings.homeIn world) typed = typed
  flat : '/' ∉ world.expandVariables typed

theorem stays_of_plain {typed : Text} (hslash : '/' ∉ typed) (hdollar : '$' ∉ typed)
    (htilde : typed.head? ≠ some '~') (browser : Browser) (world : World) :
    browser.Stays world typed where
  tilde := World.expandTilde_of_head htilde world _
  flat := by rwa [World.expandVariables_of_not_mem hdollar]

theorem Stays.seeks {directory typed : Text} (h : browser.Stays world typed)
    (hne : directory ≠ []) :
    browser.Seeks world (some directory) typed directory typed := by
  have hseeks : browser.Seeks world (some directory) typed _ _ :=
    .whole (by rw [h.tilde]; exact h.flat)
  rwa [baseIn_some hne, h.tilde] at hseeks

/-- A directory in which a text is completed as it is, is read with a dot behind its path. -/
theorem Stays.readAt {typed : Text} (h : browser.Stays world typed) (directory : Text) :
    browser.readAt world typed directory = Path.joined directory ['.'] := by
  rw [Browser.readAt, h.tilde, if_neg h.flat]

/-- Inside a directory that can be read with a dot behind its path, the programs in it are offered
that begin with the text. -/
theorem Stays.mem_texts_offered {directory typed : Text} {children : List (Text × Node)}
    (h : browser.Stays world typed) (hdisk : world.disk.Proper)
    (hword : isTildeWord typed = false)
    (hlist : world.list (Path.joined directory ['.']) = .ok children)
    (hne : directory ≠ []) {text : Text} :
    text ∈ (browser.offered world typed .executables (some directory)).map (·.text) ↔
      Entry.OnOffer world browser.settings.ignoreCase directory typed .executables children
        text := by
  rw [(h.seeks hne).mem_texts_offered hdisk hword, h.readAt, Entry.Completes, hlist]
  exact Entry.onOffer_dot_iff hdisk hlist hne

/-- Inside a directory nothing is offered but programs in it, or the text itself. -/
theorem Stays.eq_or_isExecutable {directory typed : Text} (h : browser.Stays world typed)
    (hdisk : world.disk.Proper) (hne : directory ≠ []) {text : Text}
    (htext : text ∈ (browser.offered world typed .executables (some directory)).map (·.text)) :
    text = typed ∨ world.isExecutable (Path.joined directory text) = true := by
  cases hword : isTildeWord typed with
  | true =>
    rw [offered, if_pos hword, List.map_singleton, List.mem_singleton, homeCandidate,
      h.tilde] at htext
    exact .inl (htext.trans (if_neg (not_not.mpr rfl)))
  | false =>
    rw [(h.seeks hne).mem_texts_offered hdisk hword, h.readAt, Entry.Completes] at htext
    split at htext
    · next children hlist =>
      exact .inr ((Entry.onOffer_dot_iff hdisk hlist hne).mp htext).admitted
    · exact .inl htext

end Browser

end PaneCompletion
