import PaneCompletion.Proofs.Context.Answer
import PaneCompletion.Proofs.Line.Quoted
import PaneCompletion.Proofs.Line.Unquoted
import PaneCompletion.Prompt.Completions

/-!
# Accepting an offer

An offer is accepted by putting its text in place of the characters before the cursor that it
replaces (`Completion.accept`). Where the line has no quotes a path is written for the shell, and
the new line has the words of the old one up to the argument that is completed, and that argument
anew: what was typed of it up to the splice offset, and the path. Inside an open quote a path goes
in as it is, which is right for the names that the quote keeps, and for no others.

1. accepting;
2. lines without quotes;
3. open quotes.
-/

namespace PaneCompletion

open Token

/-! ## Accepting -/

/-- The line once an offer is accepted at its end. -/
def Completion.accept (offer : Completion) (line : Text) : Text :=
  line.take (line.length - offer.replaces) ++ offer.text

/-- A world with one file, below its working directory. -/
def World.ofFile (directory name : Text) : World :=
  { workingDirectory := directory
    disk := ({} : Disk).put (Path.joined directory name) (.file [] false) }

/-- Before the cursor stands a text for which a candidate is offered. -/
structure Prompt.Offers (context : Context) (world : World) (text : Text) (candidate : Candidate)
    (offer : Completion) : Prop where
  request_some : requestOf? text = some (parseLine text).2
  answered : ∃ start, context.Answers world (parseLine text).2 start candidate ∧
    offer = offerOf (parseLine text).2 ((parseLine text).2.line.length - start).toNat candidate

namespace Prompt

theorem Offers.mem_completions {context : Context} {world : World} {text : Text}
    {candidate : Candidate} {offer : Completion} (h : Offers context world text candidate offer) :
    ∃ offers, completions context world text = .ok offers ∧ offer ∈ offers := by
  obtain ⟨start, ⟨matched, hrun, hmem⟩, rfl⟩ := h.answered
  have hname : inCommandName (commandBody text) = false := by
    have hrequest := h.request_some
    unfold requestOf? at hrequest
    split at hrequest
    · simp at hrequest
    · next hname => simpa using hname
  refine ⟨_, ?_, List.mem_map_of_mem hmem⟩
  simp only [completions, hname, h.request_some, offersFor, hrun]
  rfl

/-- An offer keeps the line up to the offset at which its candidate goes in. -/
theorem length_sub_replaces {request : Request} {start : Int} {cut : Nat} (hstart : start = cut)
    (hle : cut ≤ request.line.length) (candidate : Candidate) :
    request.line.length -
      (offerOf request (request.line.length - start).toNat candidate).replaces = cut := by
  rw [hstart]
  show request.line.length - ((request.line.length : Int) - cut).toNat = cut
  omega

/-! ## Lines without quotes -/

/-- In a line without quotes accepting a path changes the argument that is completed, and that
alone: to the value of what was typed of it up to the splice offset, and the path. -/
theorem words_accept_unquoted {context : Context} {world : World} {text : Text} {start : Int}
    {candidate : Candidate} (hline : Unquoted (parseLine text).2.line)
    (hanswer : context.Answers world (parseLine text).2 start candidate)
    (hpath : candidate.kind = .path) (hname : candidate.text ≠ []) :
    let request := (parseLine text).2
    let offer := offerOf request (request.line.length - start).toNat candidate
    ∃ cut : Nat, start = cut ∧ cut ≤ request.line.length ∧
      offer.accept request.line = request.line.take cut ++ Escape.shell candidate.text ∧
      (tokenize (offer.accept request.line)).words =
        request.words.take request.argumentNumber ++
          [unescape ((request.line.take cut).drop request.position.toNat) ++
            Escape.guarded candidate.text] := by
  intro request offer
  obtain ⟨cut, hcut, hle, hwords⟩ := words_splice_unquoted request.command hline hname
  have hstart : start = cut := (hanswer.start_of_path hpath).trans hcut
  have htext : offer.text = Escape.shell candidate.text :=
    if_pos ⟨hpath, Request.reading_ofLine_unquoted _ hline⟩
  have haccept : offer.accept request.line =
      request.line.take cut ++ Escape.shell candidate.text := by
    rw [Completion.accept, htext, length_sub_replaces hstart hle]
  refine ⟨cut, hstart, hle, haccept, ?_⟩
  rw [haccept]
  exact hwords

theorem words_accept_unquoted_space :
    let context : Context := { lexicon := [] }
    let request := (parseLine "edit x my\\ dir/a".toList).2
    let candidate : Candidate := ⟨"a b".toList, .path⟩
    context.Answers (.ofFile "/w".toList "my dir/a b".toList) request 10 candidate ∧
      (tokenize ((offerOf request 1 candidate).accept request.line)).words =
        ["x".toList, "my dir/a b".toList] := by
  intro context request candidate
  have hanswer : context.Answers (.ofFile "/w".toList "my dir/a b".toList) request 10 candidate :=
    ⟨_, rfl, by decide⟩
  obtain ⟨cut, hcut, -, -, hwords⟩ :=
    words_accept_unquoted (by decide) hanswer rfl (by decide)
  obtain rfl : cut = 10 := by omega
  exact ⟨hanswer, hwords⟩

/-! ## Open quotes -/

/-- Once an offer is accepted, the last argument is the value of what was typed behind an opening
quote up to the splice offset, and a name. -/
def ReadsBack (line : Text) (quote : Quote) (opening : Nat) (offer : Completion) (name : Text) :
    Prop :=
  (tokenize (offer.accept line)).words.getLast? =
    some (quote.unquote ((line.take (line.length - offer.replaces)).drop (opening + 1)) ++ name)

instance (line : Text) (quote : Quote) (opening : Nat) (offer : Completion) (name : Text) :
    Decidable (ReadsBack line quote opening offer name) :=
  inferInstanceAs (Decidable (_ = _))

/-- Inside an open quote a path goes in as it is, and is read back exactly if the quote keeps it. -/
theorem readsBack_iff_keeps {context : Context} {world : World} {text : Text}
    {candidate : Candidate} {offer : Completion} {quote : Quote} {opening : Nat}
    (hopen : OpenArgument (parseLine text).2.line quote opening)
    (hspace : endsInSpace (parseLine text).2.line = false)
    (hoffer : Offers context world text candidate offer) (hpath : candidate.kind = .path) :
    offer.text = candidate.text ∧
      (ReadsBack (parseLine text).2.line quote opening offer candidate.text ↔
        quote.Keeps candidate.text) := by
  obtain ⟨start, hanswer, rfl⟩ := hoffer.answered
  obtain ⟨hreading, cut, hcut, hle, hiff⟩ :=
    words_splice_quoted (parseLine text).2.command hopen hspace candidate.text
  have hstart : start = cut := (hanswer.start_of_path hpath).trans hcut
  have hquoted : (parseLine text).2.reading = .quoted quote := hreading
  have htext : (offerOf (parseLine text).2
      ((parseLine text).2.line.length - start).toNat candidate).text = candidate.text :=
    if_neg (by simp [hquoted])
  refine ⟨htext, ?_⟩
  rw [ReadsBack, Completion.accept, htext, length_sub_replaces hstart hle]
  exact hiff

theorem readsBack_iff_keeps_blank :
    Offers { lexicon := [] } (.ofFile "/w".toList "my file".toList) "edit x \"my".toList
        ⟨"my file".toList, .path⟩ ⟨"my file".toList, 2, "my file".toList⟩ ∧
      ReadsBack "x \"my".toList .double 2 ⟨"my file".toList, 2, "my file".toList⟩
        "my file".toList := by
  have hoffer : Offers { lexicon := [] } (.ofFile "/w".toList "my file".toList)
      "edit x \"my".toList ⟨"my file".toList, .path⟩ ⟨"my file".toList, 2, "my file".toList⟩ :=
    ⟨rfl, 3, ⟨_, rfl, by decide⟩, rfl⟩
  have hopen : OpenArgument (parseLine "edit x \"my".toList).2.line .double 2 :=
    ⟨rfl, rfl, rfl, rfl⟩
  exact ⟨hoffer, (readsBack_iff_keeps hopen rfl hoffer rfl).2.mpr (by decide)⟩

/-- A name with the quote in it is not read back, and neither is a name with a space in it behind a
space at the end of what was typed. -/
theorem not_readsBack_quote_space :
    (OpenArgument (parseLine "edit 'it".toList).2.line .single 0 ∧
      Offers { lexicon := [] } (.ofFile "/w".toList "it's".toList) "edit 'it".toList
        ⟨"it's".toList, .path⟩ ⟨"it's".toList, 2, "it's".toList⟩ ∧
      ¬ReadsBack (parseLine "edit 'it".toList).2.line .single 0
        ⟨"it's".toList, 2, "it's".toList⟩ "it's".toList) ∧
    OpenArgument (parseLine "edit 'a ".toList).2.line .single 0 ∧
      Offers { lexicon := [] } (.ofFile "/w".toList "b c".toList) "edit 'a ".toList
        ⟨"b c".toList, .path⟩ ⟨"b\\ c".toList, 0, "b c".toList⟩ ∧
      ¬ReadsBack (parseLine "edit 'a ".toList).2.line .single 0
        ⟨"b\\ c".toList, 0, "b c".toList⟩ "b c".toList := by
  refine ⟨⟨⟨rfl, rfl, rfl, rfl⟩, ?_, by decide +kernel⟩, ⟨rfl, rfl, rfl, rfl⟩, ?_,
    by decide +kernel⟩
  · exact ⟨rfl, 1, ⟨_, rfl, by decide⟩, rfl⟩
  · exact ⟨rfl, 3, ⟨_, rfl, by decide⟩, rfl⟩

end Prompt

end PaneCompletion
