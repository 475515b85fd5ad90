import TypeWatch.Proofs.Reading.BlameStmt
import TypeWatch.Proofs.Reading.Joined
import TypeWatch.Proofs.Source.Line
import TypeWatch.Proofs.Token.Cut
import TypeWatch.Source.Excerpt

/-! # Rejected texts and their lines

The error of a text that is no module is told between two characters of the text (`rejected_cuts`), so there is a line
to show it with: the one that holds the place, or the last one at the end of the text (`rejected_shown`). -/
namespace TypeWatch
set_option autoImplicit false

/-- A text has no tokens, or tokens that make no module. -/
def Rejected (source : String) (e : SyntaxError) : Prop :=
  tokenize source = .error e ∨ ∃ tokens, tokenize source = .ok tokens ∧ Module.ofTokens tokens = .error e

namespace Reading

theorem within_ofTokens {source : String} {tokens : List Token} (h : tokenize source = .ok tokens) :
    (Cursor.ofTokens tokens).Within tokens := by
  obtain ⟨body, stop, rfl, hstop, hbody⟩ := tokenize_ends h
  refine ⟨⟨Cursor.ofTokens_sound (tokenize_placed h), fun _ ht => (Cursor.ofTokens_prefix _).subset ht⟩, ?_⟩
  rw [ofTokens_ended hstop hbody]
  exact List.mem_append_right _ (List.mem_singleton.mpr rfl)

/-- A module that cannot be read is blamed on one of its tokens. -/
theorem begins_of_ofTokens {source : String} {tokens : List Token} {e : SyntaxError}
    (h : tokenize source = .ok tokens) (he : Module.ofTokens tokens = .error e) : BeginsToken tokens e.position := by
  have hstays := moduleStmts_stays _ (within_ofTokens h)
  rcases exists_of_bind_error he with hstmts | ⟨a, -, he⟩
  · rwa [hstmts] at hstays
  · cases he

end Reading

/-- The error of a rejected text is told between two of its characters. -/
theorem rejected_cuts {source : String} {e : SyntaxError} (h : Rejected source e) :
    Position.first.Cuts source.toList e.position := by
  rcases h with h | ⟨tokens, htokens, h⟩
  · exact tokenize_fails h
  · obtain ⟨t, ht, hstart⟩ := Reading.begins_of_ofTokens htokens h
    rw [← hstart]
    exact tokenize_starts htokens t ht

namespace Text

/-- The line of a place in a text, of which the parts before and behind the place are given. In front of a character
it is the line of that character: all of the text before it is whole lines, and it goes on up to a line feed or to
the end of the text. At the end of the text it is the last line. -/
structure Locates (before behind : List Char) (found : LineAt) : Prop where
  inside : behind ≠ [] → ∃ above lead tail rest, before = above ++ lead ∧ behind = tail ++ rest ∧ tail ≠ [] ∧
    WholeLines above ∧ IsLine (lead ++ tail) rest ∧ found = ⟨lineFeeds before + 1, lead ++ tail, byteLength lead⟩
  atEnd : behind = [] →
    found = ⟨max 1 (lineCount before), lastLine before, byteLength (lastLine before)⟩

/-- Between two characters of a text, and at its ends, there is a line. -/
theorem exists_locates {source : String} {before behind : List Char} (h : source.toList = before ++ behind) :
    ∃ found, lineAt source (byteLength before) = some found ∧ Locates before behind found := by
  by_cases hbehind : behind = []
  · rw [hbehind, List.append_nil] at h
    refine ⟨_, h ▸ lineAt_end source, fun hne => absurd hbehind hne, fun _ => rfl⟩
  · obtain ⟨above, lead, tail, rest, rfl, rfl, habove, hlead, htail, hline⟩ := exists_around before hbehind
    have hfound := lineAt_around (by rw [h]; simp only [List.append_assoc]) habove hline htail
    refine ⟨_, hfound, fun _ => ⟨above, lead, tail, rest, rfl, rfl, htail, habove, hline, ?_⟩,
      fun hnil => absurd hnil hbehind⟩
    rw [lineFeeds_append, lineFeeds, lineFeeds, List.count_eq_zero_of_not_mem hlead, Nat.add_zero]

end Text

end TypeWatch
