import ManagedModel.Pattern

/-! # Marked patterns

    A search follows all matches at once by marks on the sets of a pattern: a
    mark says that a match under way has just taken a character with that set.
    However many matches there are, the marks are all that is kept of them, so
    a character costs no more than one walk over the pattern.

    * `Marked.ofPattern` writes repetitions with counts out. A part that always
      allows the empty text is only repeated up to a count, since repeating it
      less often comes to the same.
    * Every node knows whether it holds a mark and whether it allows the empty
      text, so that a walk can leave out the parts where nothing happens. The
      functions `concat`, `alternate` and `upToNext` build nodes that know this.
    * `Marked.busy_ofPattern`: at first there are no marks. -/

namespace ManagedModel

namespace Pattern

/-- Whether a pattern allows the empty text. -/
inductive Emptiness where
  /-- At no place. -/
  | never
  /-- At the places that fulfil its conditions. -/
  | conditional
  /-- At every place. -/
  | always
deriving DecidableEq

namespace Emptiness

/-- For one pattern after the other. -/
def both : Emptiness → Emptiness → Emptiness
  | never, _ | _, never => never
  | always, e | e, always => e
  | conditional, conditional => conditional

/-- For either of two patterns. -/
def either : Emptiness → Emptiness → Emptiness
  | always, _ | _, always => always
  | never, e | e, never => e
  | conditional, conditional => conditional

end Emptiness

/-- A pattern with marks on its sets. -/
inductive Marked where
  /-- The empty text. -/
  | empty
  /-- The empty text, at a place where the condition holds. -/
  | look (l : Look)
  /-- One character of the set. -/
  | set (s : CharSet) (mark : Bool)
  /-- One pattern after the other. -/
  | concatNode (emptiness : Emptiness) (busy : Bool) (p q : Marked)
  /-- Either pattern. -/
  | alternateNode (emptiness : Emptiness) (busy : Bool) (p q : Marked)
  /-- The pattern once or more often. -/
  | loop (p : Marked)
  /-- A part up to a count: the empty text, or the part and then the part up to a lower count. -/
  | upToNode (busy : Bool) (p rest : Marked)

namespace Marked

/-! ### What a node knows -/

/-- Whether the pattern allows the empty text. -/
def emptiness : Marked → Emptiness
  | empty => .always
  | look _ => .conditional
  | set _ _ => .never
  | concatNode e _ _ _ => e
  | alternateNode e _ _ _ => e
  | loop p => p.emptiness
  | upToNode _ _ _ => .always

/-- Whether the pattern holds a mark. -/
def busy : Marked → Bool
  | empty => false
  | look _ => false
  | set _ mark => mark
  | concatNode _ b _ _ => b
  | alternateNode _ b _ _ => b
  | loop p => p.busy
  | upToNode b _ _ => b

/-- One pattern after the other. -/
def concat : Marked → Marked → Marked
  | empty, q => q
  | p, empty => p
  | p, q => concatNode (p.emptiness.both q.emptiness) (p.busy || q.busy) p q

/-- Either pattern. -/
def alternate (p q : Marked) : Marked :=
  alternateNode (p.emptiness.either q.emptiness) (p.busy || q.busy) p q

/-- The empty text, or a part and then the part up to a lower count. -/
def upToNext (p rest : Marked) : Marked := upToNode (p.busy || rest.busy) p rest

/-! ### Repetitions -/

/-- The pattern exactly `count` times. Both halves are one and the same, so this takes no more
    room than the binary digits of the count. -/
def times (p : Marked) (count : Nat) : Marked :=
  if count = 0 then empty
  else if count = 1 then p
  else
    let half := times p (count / 2)
    if count % 2 = 0 then concat half half else concat half (concat half p)
termination_by count

/-- The pattern up to `count` times. -/
def upTo (p : Marked) (count : Nat) : Marked := count.repeat (upToNext p) empty

/-- The pattern as often as one likes. -/
def anyTimes (p : Marked) : Marked := alternate empty (loop p)

/-- The pattern at least `min` times, and at most `max` times where that is given. A `max` below
    `min` counts as `min`. -/
def repeated (p : Marked) (min : Nat) (max? : Option Nat) : Marked :=
  match p.emptiness, max? with
  | .always, some max => p.upTo (Nat.max min max)
  | .always, none => p.anyTimes
  | _, some max => concat (p.times min) (p.upTo (max - min))
  | _, none => if min = 0 then p.anyTimes else concat (p.times (min - 1)) (loop p)

/-- A pattern without marks. -/
def ofPattern : Pattern → Marked
  | .empty => empty
  | .set s => set s false
  | .look l => look l
  | .concat p q => concat (ofPattern p) (ofPattern q)
  | .alternate p q => alternate (ofPattern p) (ofPattern q)
  | .repeat p min max? => (ofPattern p).repeated min max?

/-! ### Marks -/

/-- A sequence holds the marks of its parts. -/
theorem busy_concat (p q : Marked) : (concat p q).busy = (p.busy || q.busy) := by
  unfold concat
  split <;> simp [busy]

/-- Alternatives hold the marks of both. -/
theorem busy_alternate (p q : Marked) : (alternate p q).busy = (p.busy || q.busy) := rfl

/-- A part up to a count holds the marks of all its repetitions. -/
theorem busy_upToNext (p rest : Marked) : (upToNext p rest).busy = (p.busy || rest.busy) := rfl

/-- Repeating a pattern without marks makes none. -/
theorem busy_times {p : Marked} (h : p.busy = false) (count : Nat) :
    (p.times count).busy = false := by
  fun_induction times p count with
  | case1 => rfl
  | case2 => exact h
  | case3 _ _ _ half _ ih => simp [half, busy_concat, ih]
  | case4 _ _ _ half _ ih => simp [half, busy_concat, ih, h]

/-- Repeating a pattern without marks up to a count makes none. -/
theorem busy_upTo {p : Marked} (h : p.busy = false) (count : Nat) :
    (p.upTo count).busy = false := by
  induction count with
  | zero => rfl
  | succ count ih =>
    simp only [upTo, Nat.repeat, busy_upToNext, h, Bool.false_or]
    exact ih

/-- No repetition of a pattern without marks makes any. -/
theorem busy_repeated {p : Marked} (h : p.busy = false) (min : Nat) (max? : Option Nat) :
    (p.repeated min max?).busy = false := by
  have hAny : p.anyTimes.busy = false := by simp [anyTimes, busy_alternate, busy, h]
  have hLoop : (loop p).busy = false := h
  unfold repeated
  split
  · exact busy_upTo h _
  · exact hAny
  · simp [busy_concat, busy_times h, busy_upTo h]
  · split
    · exact hAny
    · simp [busy_concat, busy_times h, hLoop]

/-- Before a search no match is under way. -/
theorem busy_ofPattern (p : Pattern) : (ofPattern p).busy = false := by
  induction p with
  | empty => rfl
  | set s => rfl
  | look l => rfl
  | concat p q ihp ihq => simp [ofPattern, busy_concat, ihp, ihq]
  | alternate p q ihp ihq => simp [ofPattern, busy_alternate, ihp, ihq]
  | «repeat» p min max? ih => exact busy_repeated ih min max?

end Marked

end Pattern

end ManagedModel
