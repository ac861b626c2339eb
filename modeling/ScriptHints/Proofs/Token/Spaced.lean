import ScriptHints.Proofs.Token.Placed
import ScriptHints.Proofs.Token.Sliced

/-!
# Tokens in a span

The tokens of a text and its end stand one behind the other. So a span tells of which tokens it is
the span: those that begin in it. In a slice of the text the same tokens have the same span, counted
from the first one.
-/

namespace ScriptHints

namespace Syntax

open Text

def Span.shifted (line column : Nat) (s : Span) : Span where
  line := line + (s.line - 1)
  column := if s.line = 1 then column + (s.column - 1) else s.column
  endLine := line + (s.endLine - 1)
  endColumn := if s.endLine = 1 then column + (s.endColumn - 1) else s.endColumn

end Syntax

namespace Token

open Text Syntax

/-!
## Order
-/

theorem Lexer.Passes.spaced {l m : Lexer} {ts : List Token} (h : l.Passes ts m) :
    l.place.mark ≤ m.place.mark ∧
      forall t, t ∈ ts -> l.place.mark ≤ (Span.ofToken t).start ∧
        (Span.ofToken t).finish < m.place.mark := by
  induction h with
  | refl l => exact ⟨le_refl _, nofun⟩
  | @trivia l m c cs rest ts _ _ _ ih =>
      have honward := l.place.mark_le_after (c :: cs)
      refine ⟨honward.trans ih.1, fun t ht => ?_⟩
      exact ⟨honward.trans (ih.2 t ht).1, (ih.2 t ht).2⟩
  | @token l m c cs rest ts kind _ _ _ ih =>
      have honward := l.place.mark_le_after (c :: cs)
      refine ⟨honward.trans ih.1, fun t ht => ?_⟩
      rcases List.mem_cons.mp ht with rfl | hlater
      · have hfinish := l.finish_tokenHere_lt kind (r := ⟨.token kind, c :: cs, rest⟩) nofun
        exact ⟨le_refl _, lt_of_lt_of_le hfinish ih.1⟩
      · exact ⟨honward.trans (ih.2 t hlater).1, (ih.2 t hlater).2⟩

/-- The tokens of a stream and the end of the text stand one behind the other. -/
structure TokenStream.Spaced (stream : TokenStream) : Prop where
  line_ne_zero : forall {i}, i ≤ stream.size -> (stream.get i).place.line ≠ 0
  ordered : forall {i j}, i < j -> j ≤ stream.size ->
    (Span.ofToken (stream.get i)).finish < (Span.ofToken (stream.get j)).start

theorem spaced_tokensOf {text : String} {stream : TokenStream} (h : tokensOf text = .ok stream) :
    stream.Spaced := by
  have placed := placed_tokensOf h
  rcases tokensOf_ok_iff.mp h with ⟨m, hpasses, _, hstop⟩
  rcases hpasses.spaced with ⟨honward, hinside⟩
  have hend : stream.get stream.size = stream.stop := stream.get_of_size_le (Nat.le_refl _)
  constructor
  · intro i hi
    rcases Nat.lt_or_eq_of_le hi with hlt | rfl
    · exact placed.line_ne_zero hlt
    · have hline : 1 < m.place.line ∨ (1 = m.place.line ∧ 1 ≤ m.place.column) :=
        Prod.Lex.toLex_le_toLex.mp honward
      rw [hend, hstop]
      show m.place.line ≠ 0
      omega
  · intro i j hij hj
    rcases Nat.lt_or_eq_of_le hj with hlt | rfl
    · exact placed.ordered hij hlt
    · rw [hend, hstop]
      refine (hinside (stream.get i) ?_).2
      have hi : i < stream.body.toList.length := hij
      rw [← stream.getElem_body hi]
      exact List.getElem_mem hi

namespace TokenStream

def spanOf (stream : TokenStream) (first stop : Nat) : Span :=
  Span.union (Span.ofToken (stream.get first)) (Span.ofToken (stream.get (max (stop - 1) first)))

namespace Spaced

variable {stream : TokenStream} (h : stream.Spaced)
include h

theorem start_lt {i j : Nat} (hij : i < j) (hj : j ≤ stream.size) :
    (Span.ofToken (stream.get i)).start < (Span.ofToken (stream.get j)).start :=
  lt_of_le_of_lt (start_le_finish_ofToken _) (h.ordered hij hj)

theorem finish_lt {i j : Nat} (hij : i < j) (hj : j ≤ stream.size) :
    (Span.ofToken (stream.get i)).finish < (Span.ofToken (stream.get j)).finish :=
  lt_of_lt_of_le (h.ordered hij hj) (start_le_finish_ofToken _)

theorem start_le_iff {i j : Nat} (hi : i ≤ stream.size) (hj : j ≤ stream.size) :
    (Span.ofToken (stream.get i)).start ≤ (Span.ofToken (stream.get j)).start ↔ i ≤ j := by
  constructor
  · intro hle
    exact Nat.le_of_not_lt fun hlt => absurd hle (not_le_of_gt (h.start_lt hlt hi))
  · intro hle
    rcases Nat.lt_or_eq_of_le hle with hlt | rfl
    · exact le_of_lt (h.start_lt hlt hj)
    · exact le_refl _

theorem finish_le_iff {i j : Nat} (hi : i ≤ stream.size) (hj : j ≤ stream.size) :
    (Span.ofToken (stream.get i)).finish ≤ (Span.ofToken (stream.get j)).finish ↔ i ≤ j := by
  constructor
  · intro hle
    exact Nat.le_of_not_lt fun hlt => absurd hle (not_le_of_gt (h.finish_lt hlt hi))
  · intro hle
    rcases Nat.lt_or_eq_of_le hle with hlt | rfl
    · exact le_of_lt (h.finish_lt hlt hj)
    · exact le_refl _

theorem spanOf_bounds (i j : Nat) :
    (stream.spanOf i j).line ≠ 0 ∧
      (stream.spanOf i j).start = (Span.ofToken (stream.get i)).start ∧
      (stream.spanOf i j).finish = (Span.ofToken (stream.get (max (j - 1) i))).finish := by
  have hle : min i stream.size ≤ min (max (j - 1) i) stream.size := by omega
  have hi : min i stream.size ≤ stream.size := Nat.min_le_right _ _
  have hj : min (max (j - 1) i) stream.size ≤ stream.size := Nat.min_le_right _ _
  unfold spanOf
  rw [← stream.get_min_size i, ← stream.get_min_size (max (j - 1) i)]
  exact Span.union_of_le (h.line_ne_zero hi) (h.line_ne_zero hj) ((h.start_le_iff hi hj).mpr hle)
    ((h.finish_le_iff hi hj).mpr hle)

theorem eq_of_spanOf_eq {i j first stop : Nat} (hlt : first < stop) (hstop : stop ≤ stream.size)
    (heq : stream.spanOf i j = stream.spanOf first stop) :
    i = first ∧ max (j - 1) i = stop - 1 := by
  rcases h.spanOf_bounds i j with ⟨_, hstart, hfinish⟩
  rcases h.spanOf_bounds first stop with ⟨_, hstart', hfinish'⟩
  have hlast : max (stop - 1) first = stop - 1 := by omega
  rw [heq, hstart', ← stream.get_min_size i] at hstart
  rw [heq, hfinish', hlast, ← stream.get_min_size (max (j - 1) i)] at hfinish
  have hi : min i stream.size ≤ stream.size := Nat.min_le_right _ _
  have hj : min (max (j - 1) i) stream.size ≤ stream.size := Nat.min_le_right _ _
  have h₁ := (h.start_le_iff (by omega) hi).mp (le_of_eq hstart)
  have h₂ := (h.start_le_iff hi (by omega)).mp (le_of_eq hstart.symm)
  have h₃ := (h.finish_le_iff (by omega) hj).mp (le_of_eq hfinish)
  have h₄ := (h.finish_le_iff hj (by omega)).mp (le_of_eq hfinish.symm)
  omega

theorem contains_spanOf_iff {first stop i : Nat} (hlt : first < stop) (hstop : stop ≤ stream.size)
    (hi : i ≤ stream.size) :
    (stream.spanOf first stop).contains (stream.get i).place.line (stream.get i).place.column =
    true ↔
      first ≤ i ∧ i < stop := by
  rcases h.spanOf_bounds first stop with ⟨hline, hstart, hfinish⟩
  have hlast : max (stop - 1) first = stop - 1 := by omega
  have hplace : toLex ((stream.get i).place.line, (stream.get i).place.column) =
      (Span.ofToken (stream.get i)).start := rfl
  rw [Span.contains_iff_between, hstart, hfinish, hlast, hplace, h.start_le_iff (by omega) hi]
  constructor
  · rintro ⟨_, hfirst, hle⟩
    refine ⟨hfirst, Nat.lt_of_not_le fun hge => ?_⟩
    exact absurd hle (not_le_of_gt (h.ordered (by omega) hi))
  · rintro ⟨hfirst, hbefore⟩
    refine ⟨hline, hfirst, (start_le_finish_ofToken _).trans ?_⟩
    exact (h.finish_le_iff hi (by omega)).mpr (by omega)

theorem spanOf_eq {first stop : Nat} (hlt : first < stop) :
    stream.spanOf first stop =
      { line := (stream.get first).place.line
        column := (stream.get first).place.column
        endLine := (Span.ofToken (stream.get (stop - 1))).endLine
        endColumn := (Span.ofToken (stream.get (stop - 1))).endColumn } := by
  rcases h.spanOf_bounds first stop with ⟨_, hstart, hfinish⟩
  have hlast : max (stop - 1) first = stop - 1 := by omega
  rw [hlast] at hfinish
  rcases Prod.mk.inj (congrArg ofLex hstart) with ⟨hline, hcolumn⟩
  rcases Prod.mk.inj (congrArg ofLex hfinish) with ⟨hendLine, hendColumn⟩
  rw [← hendLine, ← hendColumn]
  show _ = Span.mk (Span.ofToken (stream.get first)).line
    (Span.ofToken (stream.get first)).column _ _
  rw [← hline, ← hcolumn]

end Spaced

/-!
## Slices
-/

/-- In the slice the tokens have the same span, counted from the first one. -/
theorem Sliced.spanOf_add {part whole : TokenStream} {first stop : Nat}
    (h : Sliced first stop part whole) (hpart : part.Spaced) (hwhole : whole.Spaced) {i j : Nat}
    (hij : i < j) (hj : j ≤ part.size) :
    whole.spanOf (first + i) (first + j) =
      (part.spanOf i j).shifted (whole.get first).place.line (whole.get first).place.column := by
  have hlast : first + j - 1 = first + (j - 1) := by omega
  have hcolumn := (h.counted (j - 1) (by omega)).2
  rw [hwhole.spanOf_eq (by omega), hpart.spanOf_eq hij, hlast]
  unfold Span.shifted Span.ofToken
  simp only [h.place i (by omega), h.place (j - 1) (by omega), h.lexeme (j - 1) (by omega),
    Place.plus, Span.mk.injEq, true_and]
  split <;> omega

end TokenStream

/-- The text from the first to the last of the tokens that begin in the span. -/
def sliceWithin (text : String) (stream : TokenStream) (span : Span) : Option String :=
  let inside := stream.toList.filter fun t => span.contains t.place.line t.place.column
  match inside.head?, inside.getLast? with
  | some first, some last => some (textBetween text.toList first last)
  | _, _ => none

theorem TokenStream.Spaced.filter_contains {stream : TokenStream} (h : stream.Spaced)
    {first stop : Nat} (hlt : first < stop) (hstop : stop ≤ stream.size) :
    (stream.toList.filter fun t =>
      (stream.spanOf first stop).contains t.place.line t.place.column) =
        stream.between first stop := by
  have hend : stream.stop = stream.get stream.size :=
    (stream.get_of_size_le (Nat.le_refl _)).symm
  have hbefore (t : Token) (ht : t ∈ stream.body.toList.take first) :
      ¬ (stream.spanOf first stop).contains t.place.line t.place.column = true := by
    rcases List.mem_take_iff_getElem.mp ht with ⟨i, hi, rfl⟩
    rw [stream.getElem_body, h.contains_spanOf_iff hlt hstop (by omega)]
    omega
  have hinside (t : Token) (ht : t ∈ stream.between first stop) :
      (stream.spanOf first stop).contains t.place.line t.place.column = true := by
    rcases List.mem_iff_getElem?.mp ht with ⟨p, hp⟩
    have hlength := (List.getElem?_eq_some_iff.mp hp).1
    rw [TokenStream.length_between hlt hstop] at hlength
    rw [TokenStream.getElem?_between hlt hstop hlength] at hp
    cases hp
    exact (h.contains_spanOf_iff hlt hstop (by omega)).mpr ⟨by omega, by omega⟩
  have hbehind (t : Token) (ht : t ∈ stream.body.toList.drop stop ++ [stream.stop]) :
      ¬ (stream.spanOf first stop).contains t.place.line t.place.column = true := by
    have hindex : exists i, stop ≤ i ∧ i ≤ stream.size ∧ t = stream.get i := by
      rcases List.mem_append.mp ht with hbody | hlast
      · rcases List.mem_drop_iff_getElem.mp hbody with ⟨i, hi, rfl⟩
        exact ⟨stop + i, Nat.le_add_right _ _, by rw [Nat.add_comm]; exact Nat.le_of_lt hi,
          stream.getElem_body _⟩
      · rw [List.mem_singleton.mp hlast]
        exact ⟨stream.size, hstop, Nat.le_refl _, hend⟩
    rcases hindex with ⟨i, hge, hi, rfl⟩
    rw [h.contains_spanOf_iff hlt hstop hi]
    omega
  unfold TokenStream.toList
  rw [stream.body_eq_between (Nat.le_of_lt hlt), List.append_assoc, List.append_assoc,
    List.filter_append, List.filter_append, List.filter_eq_nil_iff.mpr hbefore,
    List.filter_eq_self.mpr hinside, List.filter_eq_nil_iff.mpr hbehind, List.nil_append,
    List.append_nil]

theorem sliceWithin_spanOf (text : String) {stream : TokenStream} (h : stream.Spaced)
    {first stop : Nat} (hlt : first < stop) (hstop : stop ≤ stream.size) :
    sliceWithin text stream (stream.spanOf first stop) =
      some (textBetween text.toList (stream.get first) (stream.get (stop - 1))) := by
  unfold sliceWithin
  simp only [h.filter_contains hlt hstop]
  have hhead : (stream.between first stop).head? = some (stream.get first) := by
    rw [TokenStream.between_eq_cons hlt hstop]
    rfl
  have hlast : (stream.between first stop).getLast? = some (stream.get (stop - 1)) := by
    rw [TokenStream.between_eq_concat hlt hstop]
    exact List.getLast?_concat
  rw [hhead, hlast]

end Token
end ScriptHints
