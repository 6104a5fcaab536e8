import PaneCompletion.World.Home
import PaneCompletion.World.Variables

/-!
# What tildes and variables leave in place

A text that does not begin with a tilde keeps its beginning, and one without a dollar sign has no
variables in it. A slash belongs to no bare name, so a text can be cut behind a slash and its two
parts read apart (`expandVariables_cut`). The one thing that reaches across a slash is braces:
`${a/b}` is a single reference, so the braces that close behind the slash must open there too.

1. tildes;
2. variables;
3. cutting at a slash.
-/

namespace PaneCompletion.World

/-! ## Tildes -/

theorem expandTilde_of_head {path : Text} (h : path.head? ≠ some '~') (world : World)
    (home : Text) : world.expandTilde home path = path := by
  unfold expandTilde
  split
  · simp at h
  · simp at h
  · simp at h
  · rfl

/-- A leading tilde of a path can be written out: the home directory is known, and an account that
is named can be looked for. -/
def Expands (world : World) (path : Text) : Prop :=
  Text.startsWith path ['~'] = true →
    (∃ home, world.home = .ok home) ∧ world.accountError? path = none

theorem tildeError?_eq_none_iff {world : World} {path : Text} :
    world.tildeError? path = none ↔ world.Expands path := by
  rw [tildeError?, Expands]
  cases Text.startsWith path ['~'] <;> cases world.home <;> simp

/-- The home directory, where there is one, is the one that is stated. -/
theorem homeDirectory_of_home {world : World} {home : Text} (h : world.home = .ok home) :
    world.homeDirectory = home := by
  rw [World.home] at h
  split at h
  · cases h
  · split at h
    · cases h
    · exact Except.ok.inj h

/-! ## Variables -/

/-- References ask for the environment alone. -/
theorem expandVariables_congr {world other : World} (h : world.environment = other.environment)
    (text : Text) : world.expandVariables text = other.expandVariables text := by
  have hvalue : world.valueOr = other.valueOr := by
    funext name written
    rw [valueOr, valueOr, value?, value?, h]
  rw [expandVariables, expandVariables]
  generalize Reference.none = reference
  induction text generalizing reference with
  | nil => cases reference <;> simp only [expandFrom, hvalue]
  | cons c rest ih => cases reference <;> simp only [expandFrom, ih, hvalue]

theorem expandVariables_of_not_mem {text : Text} (h : '$' ∉ text) (world : World) :
    world.expandVariables text = text := by
  rw [expandVariables]
  induction text with
  | nil => rfl
  | cons c rest ih =>
    obtain ⟨hc, hrest⟩ : '$' ≠ c ∧ '$' ∉ rest := by simpa using h
    rw [expandFrom, if_neg hc.symm, ih hrest]

/-! ## Cutting at a slash -/

/-- Every pair of braces that opens in a text behind a dollar sign is closed in it. -/
def Closes (text : Text) : Prop := ∀ front rest, text = front ++ '$' :: '{' :: rest → '}' ∈ rest

theorem closes_of_not_mem {text : Text} (h : '$' ∉ text) : Closes text := by
  rintro front rest rfl
  simp at h

theorem Closes.of_cons {c : Char} {text : Text} (h : Closes (c :: text)) : Closes text := by
  intro front rest heq
  exact h (c :: front) rest (by rw [heq]; rfl)

theorem Closes.of_append_slash {text : Text} (h : Closes (text ++ ['/'])) : Closes text := by
  intro front rest heq
  have hmem : '}' ∈ rest ++ ['/'] := h front (rest ++ ['/']) (by rw [heq]; simp)
  simpa using hmem

/-- The sign that has been read of a reference and that braces may follow. -/
def Reference.sign : Reference → Text
  | .dollar => ['$']
  | _ => []

/-- What one character does to a reader of references: it puts some text out, and only behind a
dollar sign it looks ahead, for braces that close. -/
theorem exists_expandFrom_step (world : World) (reference : Reference) (c : Char) (closed : Bool) :
    ∃ read next,
      (∀ rest, (reference.sign ++ [c] = ['$', '{'] → rest.contains '}' = closed) →
        world.expandFrom reference (c :: rest) = read ++ world.expandFrom next rest) ∧
      (next.sign = [] ∨ next.sign = [c]) ∧
      ∀ name, next = .braced name →
        c ≠ '}' ∧ (∃ before, reference = .braced before) ∨ closed = true := by
  cases reference with
  | none =>
    by_cases hc : c = '$'
    · exact ⟨[], .dollar, fun rest _ => by rw [expandFrom, if_pos hc]; rfl, .inr (by rw [hc]; rfl),
        by simp⟩
    · exact ⟨[c], .none, fun rest _ => by rw [expandFrom, if_neg hc]; rfl, .inl rfl, by simp⟩
  | dollar =>
    by_cases hbrace : c = '{'
    · cases closed with
      | true =>
        refine ⟨[], .braced [], fun rest hrest => ?_, .inl rfl, fun _ _ => .inr rfl⟩
        rw [expandFrom, if_pos ⟨hbrace, hrest (by rw [hbrace]; rfl)⟩]
        rfl
      | false =>
        refine ⟨['$', c], .none, fun rest hrest => ?_, .inl rfl, by simp⟩
        have hopen : '}' ∉ rest := by simpa using hrest (by rw [hbrace]; rfl)
        have hword : Text.isWord '{' = false := by decide
        subst hbrace
        simp [expandFrom, hopen, hword]
    · by_cases hword : Text.isWord c = true
      · exact ⟨[], .bare [c], fun rest _ => by simp [expandFrom, hbrace, hword], .inl rfl, by simp⟩
      · by_cases hc : c = '$'
        · subst hc
          exact ⟨['$'], .dollar, fun rest _ => by simp [expandFrom, hword], .inr rfl, by simp⟩
        · exact ⟨['$', c], .none, fun rest _ => by simp [expandFrom, hbrace, hword, hc], .inl rfl,
            by simp⟩
  | bare name =>
    by_cases hword : Text.isWord c = true
    · exact ⟨[], .bare (name ++ [c]), fun rest _ => by simp [expandFrom, hword], .inl rfl, by simp⟩
    · by_cases hc : c = '$'
      · subst hc
        exact ⟨world.valueOr name ('$' :: name), .dollar,
          fun rest _ => by simp [expandFrom, hword], .inr rfl, by simp⟩
      · exact ⟨world.valueOr name ('$' :: name) ++ [c], .none,
          fun rest _ => by simp [expandFrom, hword, hc], .inl rfl, by simp⟩
  | braced name =>
    by_cases hc : c = '}'
    · exact ⟨world.valueOr name ('$' :: '{' :: name ++ ['}']), .none,
        fun rest _ => by rw [expandFrom, if_pos hc], .inl rfl, by simp⟩
    · exact ⟨[], .braced (name ++ [c]), fun rest _ => by rw [expandFrom, if_neg hc]; rfl, .inl rfl,
        fun _ _ => .inl ⟨hc, name, rfl⟩⟩

/-- Behind a slash outside braces a text is read as if nothing stood in front. -/
theorem expandFrom_cut (world : World) {name : Text} (front : Text) (reference : Reference)
    (hbraced : ∀ read, reference = .braced read → '}' ∈ front)
    (hcloses : '}' ∈ name → Closes (reference.sign ++ front)) :
    ∃ value, world.expandFrom reference (front ++ ['/']) = value ++ ['/'] ∧
      world.expandFrom reference (front ++ '/' :: name) =
        value ++ '/' :: world.expandFrom .none name := by
  induction front generalizing reference with
  | nil =>
    have hword : Text.isWord '/' = false := by decide
    cases reference with
    | none => exact ⟨[], by simp [expandFrom], by simp [expandFrom]⟩
    | dollar => exact ⟨['$'], by simp [expandFrom, hword], by simp [expandFrom, hword]⟩
    | bare read =>
      exact ⟨world.valueOr read ('$' :: read), by simp [expandFrom, hword],
        by simp [expandFrom, hword]⟩
    | braced read => exact absurd (hbraced read rfl) (by simp)
  | cons c rest ih =>
    obtain ⟨read, next, hstep, hsign, hnext⟩ :=
      exists_expandFrom_step world reference c (rest.contains '}')
    -- braces that open here and close behind the slash close in front of it as well
    have hahead : reference.sign ++ [c] = ['$', '{'] →
        (rest ++ '/' :: name).contains '}' = rest.contains '}' := by
      intro hopens
      by_cases hname : '}' ∈ name
      · have hrest : '}' ∈ rest := hcloses hname [] rest (by rw [List.append_cons, hopens]; rfl)
        simp [hrest]
      · simp [hname]
    obtain ⟨value, hfront, hwhole⟩ := ih next
      (by
        intro before hbefore
        rcases hnext before hbefore with ⟨hc, earlier, hearlier⟩ | hclosed
        · exact (List.mem_cons.mp (hbraced earlier hearlier)).resolve_left hc.symm
        · simpa using hclosed)
      (by
        intro hname
        have hcons : Closes (c :: rest) := by
          have hall := hcloses hname
          cases reference with
          | dollar => exact hall.of_cons
          | _ => exact hall
        rcases hsign with hsign | hsign
        · rw [hsign]
          exact hcons.of_cons
        · rw [hsign]
          exact hcons)
    refine ⟨read ++ value, ?_, ?_⟩
    · rw [List.cons_append, hstep _ (by simp), hfront, List.append_assoc]
    · rw [List.cons_append, hstep _ hahead, hwhole, List.append_assoc]

/-- A text is read in two parts, up to and with a slash and behind it, if no braces reach across. -/
theorem expandVariables_cut (world : World) {front name : Text}
    (h : '}' ∈ name → Closes (front ++ ['/'])) :
    ∃ value, world.expandVariables (front ++ ['/']) = value ++ ['/'] ∧
      world.expandVariables (front ++ '/' :: name) =
        value ++ '/' :: world.expandVariables name :=
  expandFrom_cut world front .none (by simp) fun hname => (h hname).of_append_slash

end PaneCompletion.World
