import PaneCompletion.Proofs.Line.Quoted

/-!
# Texts written inside quotes

Every text can be written inside either quote: inside single quotes each single quote stands
doubled, inside double quotes a backslash stands in front of each double quote and each backslash
(`Quote.written`). What has been written is read back by everything that reads quoted text, by the
reader of words as by the two functions that take the value of a text inside its quote, and it does
not matter to the word whether the quote is closed behind it (`read_written`).

The readers look one character ahead or behind, but what is written for one character is never read
together with what follows it. So each character is an equation of its own, for the reader of words
(`run_write`) and for the value (`unquote_write_append`), and the text follows by induction.

1. writing;
2. the value of what is written;
3. reading what is written.
-/

namespace PaneCompletion

open Token Token.Reader

namespace Quote

/-! ## Writing -/

/-- What is written for a character inside a quote. -/
def write : Quote → Char → Text
  | .single, c => if c = '\'' then ['\'', '\''] else [c]
  | .double, c => if c = '"' ∨ c = '\\' then ['\\', c] else [c]

/-- What is written for a text inside a quote. -/
def written (quote : Quote) (text : Text) : Text := text.flatMap quote.write

@[simp] theorem written_nil (quote : Quote) : quote.written [] = [] := rfl

@[simp] theorem written_cons (quote : Quote) (c : Char) (rest : Text) :
    quote.written (c :: rest) = quote.write c ++ quote.written rest := rfl

/-! ## The value of what is written -/

/-- What is written for a character stands for it, whatever follows. -/
theorem unquote_write_append (quote : Quote) (c : Char) (rest : Text) :
    quote.unquote (quote.write c ++ rest) = c :: quote.unquote rest := by
  cases quote with
  | single =>
    by_cases hc : c = '\''
    · subst hc
      rfl
    · rw [write, if_neg hc]
      exact unquoteSingle_cons hc rest
  | double =>
    by_cases hc : c = '"' ∨ c = '\\'
    · rw [write, if_pos hc]
      rcases hc with rfl | rfl <;> rfl
    · rw [write, if_neg hc]
      exact unquoteDouble_cons (fun hback => hc (.inr hback)) rest

theorem unquote_written (quote : Quote) (text : Text) :
    quote.unquote (quote.written text) = text := by
  induction text with
  | nil => cases quote <;> rfl
  | cons c rest ih => rw [written_cons, unquote_write_append, ih]

end Quote

/-! ## Reading what is written -/

namespace Token.Reader

variable {r : Reader} {quote : Quote}

/-- Inside a quote the reader takes on a character by what is written for it. -/
theorem run_write (hmode : r.mode = quote.mode) (c : Char) :
    r.run (quote.write c) = r.took (quote.write c) [c] := by
  cases quote with
  | single =>
    by_cases hc : c = '\''
    · subst hc
      exact run_doubled_quote hmode
    · rw [Quote.write, if_neg hc]
      exact step_single hmode hc
  | double =>
    by_cases hc : c = '"' ∨ c = '\\'
    · rw [Quote.write, if_pos hc, run_escaped hmode]
      rcases hc with rfl | rfl <;> rfl
    · rw [Quote.write, if_neg hc]
      rw [not_or] at hc
      exact step_double hmode hc.2 hc.1

theorem run_written (hmode : r.mode = quote.mode) (text : Text) :
    r.run (quote.written text) = r.took (quote.written text) text := by
  induction text generalizing r with
  | nil => simp [took]
  | cons c rest ih =>
    rw [Quote.written_cons, run_append, run_write hmode,
      ih (r := r.took (quote.write c) [c]) hmode, took_took]
    rfl

/-- A quote that has been opened, and a text written behind it. -/
theorem run_quote_written (hgap : r.mode = .gap) (text : Text) :
    r.run (quote.char :: quote.written text) =
      (r.opened.move quote.mode r.value).took (quote.written text) text := by
  rw [← List.singleton_append, run_append, run_quote_char hgap, run_written rfl]

end Token.Reader

theorem tokenize_written (quote : Quote) (text : Text) :
    tokenize (quote.char :: quote.written text) =
      { words := [text], starts := [0], quote := some quote } := by
  rw [tokenize, run_quote_written rfl]
  cases quote <;> rfl

theorem tokenize_written_closed (quote : Quote) (text : Text) :
    tokenize (quote.char :: quote.written text ++ [quote.char]) =
      { words := [text], starts := [0], quote := none } := by
  rw [tokenize, run_append, run_quote_written rfl]
  cases quote <;> rfl

/-- Every text is read back from what is written for it inside a quote: as the value of what is
written, and as the one word of a line that begins with the quote, closed or still open. -/
theorem read_written (text : Text) :
    unquoteSingle (Quote.single.written text) = text ∧
      unquoteDouble (Quote.double.written text) = text ∧
      ∀ quote : Quote,
        tokenize (quote.char :: quote.written text ++ [quote.char]) =
          { words := [text], starts := [0], quote := none } ∧
        tokenize (quote.char :: quote.written text) =
          { words := [text], starts := [0], quote := some quote } :=
  ⟨Quote.single.unquote_written text, Quote.double.unquote_written text,
    fun quote => ⟨tokenize_written_closed quote text, tokenize_written quote text⟩⟩

end PaneCompletion
