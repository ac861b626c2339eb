import Mathlib.Data.Prod.Lex
import Mathlib.Order.MinMax
import ScriptHints.Syntax.Span

/-!
# Unions of spans

Positions are ordered line by line. In this order a span goes from its first position to its
last one, so the union of two spans begins where the first of them begins and ends where the
last of them ends. Its laws are those of the least and of the greatest of some positions. The
span without a line is an empty one, which a union passes over.
-/

namespace ScriptHints
namespace Syntax
namespace Span

variable {a b s : Span}

def start (s : Span) : Nat ×ₗ Nat :=
  toLex (s.line, s.column)

def finish (s : Span) : Nat ×ₗ Nat :=
  toLex (s.endLine, s.endColumn)

theorem contains_iff_between (s : Span) (line column : Nat) :
    s.contains line column = true ↔
      s.line ≠ 0 ∧ s.start ≤ toLex (line, column) ∧ toLex (line, column) ≤ s.finish := by
  rw [contains_iff, start, finish, Prod.Lex.toLex_le_toLex, Prod.Lex.toLex_le_toLex]
  simp only [eq_comm]

theorem start_le_start_iff :
    a.start ≤ b.start ↔ a.line < b.line ∨ (a.line = b.line ∧ a.column ≤ b.column) :=
  Prod.Lex.toLex_le_toLex

theorem finish_le_finish_iff :
    a.finish ≤ b.finish ↔
      a.endLine < b.endLine ∨ (a.endLine = b.endLine ∧ a.endColumn ≤ b.endColumn) :=
  Prod.Lex.toLex_le_toLex

theorem line_eq_of_start_eq (h : a.start = b.start) : a.line = b.line :=
  congrArg (fun p => (ofLex p).1) h

theorem eq_of_start_eq_of_finish_eq (hstart : a.start = b.start) (hfinish : a.finish = b.finish) :
    a = b := by
  rcases a with ⟨line, column, endLine, endColumn⟩
  rcases b with ⟨line', column', endLine', endColumn'⟩
  cases hstart
  cases hfinish
  rfl

/-!
## First and last positions of a union
-/

theorem union_of_line_left (ha : a.line = 0) : union a b = b :=
  if_pos ha

theorem union_of_line_right (ha : a.line ≠ 0) (hb : b.line = 0) : union a b = a := by
  rw [union, if_neg ha, if_pos hb]

theorem start_union (ha : a.line ≠ 0) (hb : b.line ≠ 0) :
    (union a b).start = min a.start b.start := by
  rw [union, if_neg ha, if_neg hb]
  by_cases hfirst : a.line < b.line ∨ (a.line = b.line ∧ a.column ≤ b.column)
  · rw [if_pos hfirst, min_eq_left (start_le_start_iff.mpr hfirst)]
    rfl
  · rw [if_neg hfirst, min_eq_right (le_of_not_ge (start_le_start_iff.not.mpr hfirst))]
    rfl

theorem finish_union (ha : a.line ≠ 0) (hb : b.line ≠ 0) :
    (union a b).finish = max a.finish b.finish := by
  have hlast : b.finish ≤ a.finish ↔
      b.endLine < a.endLine ∨ (a.endLine = b.endLine ∧ b.endColumn ≤ a.endColumn) := by
    rw [finish_le_finish_iff, eq_comm]
  rw [union, if_neg ha, if_neg hb]
  by_cases hback : b.endLine < a.endLine ∨ (a.endLine = b.endLine ∧ b.endColumn ≤ a.endColumn)
  · rw [if_pos hback, max_eq_left (hlast.mpr hback)]
    rfl
  · rw [if_neg hback, max_eq_right (le_of_not_ge (hlast.not.mpr hback))]
    rfl

theorem line_union_ne_zero (ha : a.line ≠ 0) (hb : b.line ≠ 0) : (union a b).line ≠ 0 := by
  have hstart := start_union ha hb
  rcases min_choice a.start b.start with hmin | hmin
  · rwa [line_eq_of_start_eq (hstart.trans hmin)]
  · rwa [line_eq_of_start_eq (hstart.trans hmin)]

/-- The union of two spans in the order of the text begins with the first and ends with the
second. -/
theorem union_of_le (ha : a.line ≠ 0) (hb : b.line ≠ 0) (hstart : a.start ≤ b.start)
    (hfinish : a.finish ≤ b.finish) :
    (union a b).line ≠ 0 ∧ (union a b).start = a.start ∧ (union a b).finish = b.finish := by
  refine ⟨line_union_ne_zero ha hb, ?_, ?_⟩
  · rw [start_union ha hb, min_eq_left hstart]
  · rw [finish_union ha hb, max_eq_right hfinish]

/-!
## Order and grouping of unions
-/

theorem union_self (s : Span) : union s s = s := by
  simp [union]

theorem union_comm (ha : a.line ≠ 0) (hb : b.line ≠ 0) : union a b = union b a := by
  apply eq_of_start_eq_of_finish_eq
  · rw [start_union ha hb, start_union hb ha, min_comm]
  · rw [finish_union ha hb, finish_union hb ha, max_comm]

theorem union_assoc (a b c : Span) : union (union a b) c = union a (union b c) := by
  -- A span without a line has positions that do not count, so it is put aside first.
  by_cases ha : a.line = 0
  · rw [union_of_line_left ha, union_of_line_left ha]
  by_cases hb : b.line = 0
  · rw [union_of_line_right ha hb, union_of_line_left hb]
  have hab := line_union_ne_zero ha hb
  by_cases hc : c.line = 0
  · rw [union_of_line_right hab hc, union_of_line_right hb hc]
  have hbc := line_union_ne_zero hb hc
  apply eq_of_start_eq_of_finish_eq
  · rw [start_union hab hc, start_union ha hb, start_union ha hbc, start_union hb hc, min_assoc]
  · rw [finish_union hab hc, finish_union ha hb, finish_union ha hbc, finish_union hb hc, max_assoc]

/-!
## Positions in a union
-/

/-- A part of a text: it has a line, and does not end before it begins. -/
structure InText (s : Span) : Prop where
  line_ne_zero : s.line ≠ 0
  start_le_finish : s.start ≤ s.finish

def Covers (s a : Span) : Prop :=
  forall line column, a.contains line column = true -> s.contains line column = true

/-- The first and the last position of the second span are in the first one. -/
def Encloses (s a : Span) : Prop :=
  s.contains a.line a.column = true ∧ s.contains a.endLine a.endColumn = true

instance (s : Span) : Decidable s.InText :=
  decidable_of_iff (s.line ≠ 0 ∧ s.start ≤ s.finish)
    ⟨fun h => ⟨h.1, h.2⟩, fun h => ⟨h.line_ne_zero, h.start_le_finish⟩⟩

instance (s a : Span) : Decidable (s.Encloses a) :=
  inferInstanceAs (Decidable (_ ∧ _))

theorem Covers.of_bounds (hline : s.line ≠ 0) (hstart : s.start ≤ a.start)
    (hfinish : a.finish ≤ s.finish) : s.Covers a := by
  intro line column hcontains
  rw [contains_iff_between] at hcontains ⊢
  exact ⟨hline, hstart.trans hcontains.2.1, hcontains.2.2.trans hfinish⟩

theorem InText.encloses_self (ha : a.InText) : a.Encloses a :=
  ⟨(contains_iff_between a a.line a.column).mpr ⟨ha.line_ne_zero, le_refl _, ha.start_le_finish⟩,
    (contains_iff_between a a.endLine a.endColumn).mpr
      ⟨ha.line_ne_zero, ha.start_le_finish, le_refl _⟩⟩

theorem Encloses.bounds (h : s.Encloses a) :
    s.line ≠ 0 ∧ s.start ≤ a.start ∧ a.finish ≤ s.finish := by
  rcases h with ⟨hfirst, hlast⟩
  rw [contains_iff_between] at hfirst hlast
  exact ⟨hfirst.1, hfirst.2.1, hlast.2.2⟩

theorem InText.encloses_iff_covers (ha : a.InText) : s.Encloses a ↔ s.Covers a := by
  constructor
  · intro h
    rcases h.bounds with ⟨hline, hstart, hfinish⟩
    exact .of_bounds hline hstart hfinish
  · intro h
    exact ⟨h _ _ ha.encloses_self.1, h _ _ ha.encloses_self.2⟩

theorem InText.covers_iff_bounds (ha : a.InText) :
    s.Covers a ↔ s.line ≠ 0 ∧ s.start ≤ a.start ∧ a.finish ≤ s.finish := by
  constructor
  · intro h
    exact (ha.encloses_iff_covers.mpr h).bounds
  · rintro ⟨hline, hstart, hfinish⟩
    exact .of_bounds hline hstart hfinish

theorem InText.inText_union (ha : a.InText) (hb : b.InText) : (union a b).InText where
  line_ne_zero := line_union_ne_zero ha.line_ne_zero hb.line_ne_zero
  start_le_finish := by
    rw [start_union ha.line_ne_zero hb.line_ne_zero, finish_union ha.line_ne_zero hb.line_ne_zero]
    exact (min_le_left _ _).trans (ha.start_le_finish.trans (le_max_left _ _))

theorem InText.covers_union_iff (ha : a.InText) (hb : b.InText) :
    s.Covers (union a b) ↔ s.Covers a ∧ s.Covers b := by
  rw [(ha.inText_union hb).covers_iff_bounds, ha.covers_iff_bounds, hb.covers_iff_bounds,
    start_union ha.line_ne_zero hb.line_ne_zero, finish_union ha.line_ne_zero hb.line_ne_zero,
    le_min_iff, max_le_iff]
  constructor
  · rintro ⟨hline, ⟨hstart, hstart'⟩, hfinish, hfinish'⟩
    exact ⟨⟨hline, hstart, hfinish⟩, hline, hstart', hfinish'⟩
  · rintro ⟨⟨hline, hstart, hfinish⟩, _, hstart', hfinish'⟩
    exact ⟨hline, ⟨hstart, hstart'⟩, hfinish, hfinish'⟩

/--
The union of spans is their join. It does not matter how the spans of a union are grouped, and for
spans with a line neither their order nor how often one of them is taken; a span without a line
changes nothing on either side of one with a line. The union of two parts of a text has every
position that one of them has, and a span has all positions of the union just if it has the first
and the last position of both.
-/
theorem union_is_join :
    (forall a b c, union (union a b) c = union a (union b c)) ∧
    (forall a b, a.line ≠ 0 -> b.line ≠ 0 -> union a b = union b a) ∧
    (forall a, a.line ≠ 0 -> union a a = a) ∧
    (forall a b, a.line = 0 -> b.line ≠ 0 -> union a b = b ∧ union b a = b) ∧
    forall a b : Span, a.InText -> b.InText ->
      (forall line column, a.contains line column = true ∨ b.contains line column = true ->
        (union a b).contains line column = true) ∧
      forall s : Span, s.Encloses a ∧ s.Encloses b ↔
        forall line column, (union a b).contains line column = true ->
          s.contains line column = true := by
  refine ⟨union_assoc, fun _ _ => union_comm, fun a _ => union_self a,
    fun a b ha hb => ⟨union_of_line_left ha, union_of_line_right hb ha⟩,
    fun a b ha hb => ⟨?_, fun s => ?_⟩⟩
  · have hboth : (union a b).Covers a ∧ (union a b).Covers b :=
      (ha.covers_union_iff hb).mp fun _ _ h => h
    rintro line column (hin | hin)
    · exact hboth.1 line column hin
    · exact hboth.2 line column hin
  · rw [ha.encloses_iff_covers, hb.encloses_iff_covers]
    exact (ha.covers_union_iff hb).symm

def startsFirst : Span :=
  ⟨1, 2, 2, 9⟩

/-- Begins on the same line as the other one, but behind it, and ends on a later line. -/
def endsLast : Span :=
  ⟨1, 5, 3, 2⟩

theorem union_is_join_overlapping :
    startsFirst.InText ∧ endsLast.InText ∧ none.line = 0 ∧
      union (union endsLast none) startsFirst = union endsLast (union none startsFirst) ∧
      union endsLast startsFirst = union startsFirst endsLast ∧
      union endsLast endsLast = endsLast ∧
      (union none endsLast = endsLast ∧ union endsLast none = endsLast) ∧
      (startsFirst.contains 1 3 = true ∧ (union endsLast startsFirst).contains 1 3 = true) ∧
      (endsLast.contains 3 1 = true ∧ (union endsLast startsFirst).contains 3 1 = true) ∧
      (Encloses ⟨1, 2, 3, 2⟩ endsLast ∧ Encloses ⟨1, 2, 3, 2⟩ startsFirst) ∧
      forall line column, (union endsLast startsFirst).contains line column = true ->
        contains ⟨1, 2, 3, 2⟩ line column = true := by
  rcases union_is_join with ⟨hassoc, hcomm, hself, hnone, hjoin⟩
  rcases hjoin endsLast startsFirst (by decide) (by decide) with ⟨hin, hleast⟩
  exact ⟨by decide, by decide, rfl, hassoc endsLast none startsFirst,
    hcomm endsLast startsFirst (by decide) (by decide), hself endsLast (by decide),
    hnone none endsLast rfl (by decide), ⟨by decide, hin 1 3 (.inr (by decide))⟩,
    ⟨by decide, hin 3 1 (.inl (by decide))⟩, by decide,
    (hleast ⟨1, 2, 3, 2⟩).mp (by decide)⟩

end Span
end Syntax
end ScriptHints
