import ManagedModel.Pattern.Marked

/-! # What a pattern takes

    A pattern takes a part of a text by its own structure: one character of a
    set, one pattern after the other, either of two, one repeated. A condition
    takes the empty text at the places that fulfil it. What a pattern takes is
    told from the pattern alone; how a text is searched does not matter here.

    * `Pattern.Takes` says where a pattern leads from a place in a text
      (`Cursor`), and `Marked.Takes` the same of a marked pattern, whatever its
      marks.
    * `Marked.Knows`: every node knows its parts, so that one which says that it
      always allows the empty text does (`Marked.takes_self_of_always`).
    * To write repetitions out changes nothing (`Marked.takes_ofPattern`). The
      parts that always allow the empty text rest on `Cursor.Times.mono`. -/

namespace ManagedModel

/-- A place in a text, with all that follows. -/
structure Cursor where
  before : Option Char
  rest : List Char

namespace Cursor

/-- The second place is the first one or follows it in the same text. -/
inductive Leads : Cursor → Cursor → Prop where
  | here (x : Cursor) : Leads x x
  | next {before : Option Char} {c : Char} {cs : List Char} {y : Cursor}
      (h : Leads ⟨some c, cs⟩ y) : Leads ⟨before, c :: cs⟩ y

section

variable {x y z : Cursor} {before : Option Char} {c : Char} {cs : List Char}

theorem Leads.trans (h : x.Leads y) (h' : y.Leads z) : x.Leads z := by
  induction h with
  | here => exact h'
  | next _ ih => exact .next (ih h')

/-- The last character of a part, one character earlier. -/
theorem getLast?_cons_or (c : Char) (word : List Char) (before : Option Char) :
    (c :: word).getLast?.or before = word.getLast?.or (some c) := by
  rw [List.getLast?_cons]
  cases word.getLast? <;> rfl

/-- What lies between two places is a part of the text. -/
theorem leads_iff : x.Leads y ↔
    ∃ word, x.rest = word ++ y.rest ∧ y.before = word.getLast?.or x.before := by
  constructor
  · intro h
    induction h with
    | here => exact ⟨[], rfl, rfl⟩
    | next _ ih =>
      obtain ⟨word, hrest, hbefore⟩ := ih
      refine ⟨_ :: word, congrArg (_ :: ·) hrest, ?_⟩
      rw [getLast?_cons_or]
      exact hbefore
  · intro hpart
    obtain ⟨word, hrest, hbefore⟩ := hpart
    obtain ⟨before, cs⟩ := x
    obtain ⟨before', cs'⟩ := y
    dsimp only at hrest hbefore
    subst hrest hbefore
    induction word generalizing before with
    | nil => exact .here _
    | cons c word ih =>
      rw [getLast?_cons_or]
      exact .next (ih (some c))

end

/-! ### Relations between places -/

/-- The relation leads onward only. -/
def Onward (R : Cursor → Cursor → Prop) : Prop := ∀ ⦃x y⦄, R x y → x.Leads y

/-- The relation a number of times, one after the other. -/
def Times (R : Cursor → Cursor → Prop) : Nat → Cursor → Cursor → Prop
  | 0, x, z => z = x
  | n + 1, x, z => ∃ y, R x y ∧ Times R n y z

section

variable {R : Cursor → Cursor → Prop} {x z : Cursor} {m n : Nat}

theorem Onward.times (hR : Onward R) (n : Nat) : Onward (Times R n) := by
  induction n with
  | zero =>
    rintro x z rfl
    exact .here _
  | succ n ih =>
    intro x z h
    obtain ⟨y, hxy, hyz⟩ := h
    exact (hR hxy).trans (ih hyz)

theorem times_add : Times R (m + n) x z ↔ ∃ y, Times R m x y ∧ Times R n y z := by
  induction m generalizing x with
  | zero =>
    rw [Nat.zero_add]
    constructor
    · intro h
      exact ⟨x, rfl, h⟩
    · intro hrounds
      obtain ⟨y, rfl, h⟩ := hrounds
      exact h
  | succ m ih =>
    rw [Nat.succ_add]
    constructor
    · intro h
      obtain ⟨y, hxy, hyz⟩ := h
      obtain ⟨w, hyw, hwz⟩ := ih.1 hyz
      exact ⟨w, ⟨y, hxy, hyw⟩, hwz⟩
    · intro hrounds
      obtain ⟨w, ⟨y, hxy, hyw⟩, hwz⟩ := hrounds
      exact ⟨y, hxy, ih.2 ⟨w, hyw, hwz⟩⟩

theorem times_one : Times R 1 x z ↔ R x z := by
  constructor
  · intro h
    obtain ⟨y, hxy, rfl⟩ := h
    exact hxy
  · intro h
    exact ⟨z, h, rfl⟩

theorem exists_times_add {P : Nat → Prop} :
    (∃ y, Times R m x y ∧ ∃ n, P n ∧ Times R n y z) ↔ ∃ n, P n ∧ Times R (m + n) x z := by
  constructor
  · intro h
    obtain ⟨y, hfirst, n, hn, hrest⟩ := h
    exact ⟨n, hn, times_add.2 ⟨y, hfirst, hrest⟩⟩
  · intro hrounds
    obtain ⟨n, hn, h⟩ := hrounds
    obtain ⟨y, hfirst, hrest⟩ := times_add.1 h
    exact ⟨y, hfirst, n, hn, hrest⟩

/-- The rounds that do not move can be left out before the first that does. -/
theorem Times.first (h : Times R n x z) (hne : z ≠ x) :
    ∃ y k, R x y ∧ y ≠ x ∧ k < n ∧ Times R k y z := by
  induction n with
  | zero => exact absurd h hne
  | succ n ih =>
    obtain ⟨y, hxy, hyz⟩ := h
    by_cases hy : y = x
    · rw [hy] at hyz
      obtain ⟨y', k, hfirst, hmoves, hk, hrest⟩ := ih hyz
      exact ⟨y', k, hfirst, hmoves, by omega, hrest⟩
    · exact ⟨y, n, hxy, hy, by omega, hyz⟩

/-- Where rounds need not move, there may be more of them. -/
theorem Times.mono (h : Times R m x z) (hR : ∀ x, R x x) (hle : m ≤ n) : Times R n x z := by
  obtain ⟨k, rfl⟩ := Nat.exists_eq_add_of_le' hle
  have hstay : Times R k x x := by
    clear h hle
    induction k with
    | zero => rfl
    | succ k ih => exact ⟨x, hR x, ih⟩
  exact times_add.2 ⟨x, hstay, h⟩

end

end Cursor

open Cursor

namespace Pattern

/-- The pattern leads from one place in a text to another: it takes what lies between them. A
    repetition that allows for fewer than it demands is taken as often as it demands. -/
def Takes : Pattern → Cursor → Cursor → Prop
  | .empty, x, y => y = x
  | .set s, x, y => ∃ c cs, x.rest = c :: cs ∧ s.mem c = true ∧ y = ⟨some c, cs⟩
  | .look l, x, y => l.holds x.before x.rest.head? = true ∧ y = x
  | .concat p q, x, z => ∃ y, p.Takes x y ∧ q.Takes y z
  | .alternate p q, x, y => p.Takes x y ∨ q.Takes x y
  | .repeat p min max?, x, y =>
    ∃ n, min ≤ n ∧ (∀ max ∈ max?, n ≤ Nat.max min max) ∧ Times p.Takes n x y

/-- The pattern takes some part of the text. -/
def TakesPartOf (p : Pattern) (text : String) : Prop :=
  ∃ front word back, text.toList = front ++ (word ++ back) ∧
    p.Takes ⟨front.getLast?, word ++ back⟩ ⟨(front ++ word).getLast?, back⟩

namespace Emptiness

variable {e e' : Emptiness}

theorem both_eq_always : e.both e' = always ↔ e = always ∧ e' = always := by
  cases e <;> cases e' <;> decide

theorem either_eq_always : e.either e' = always ↔ e = always ∨ e' = always := by
  cases e <;> cases e' <;> decide

end Emptiness

namespace Marked

/-! ### What a marked pattern takes -/

/-- The pattern leads from one place to another, whatever its marks. -/
def Takes : Marked → Cursor → Cursor → Prop
  | empty, x, y => y = x
  | look l, x, y => l.holds x.before x.rest.head? = true ∧ y = x
  | set s _, x, y => ∃ c cs, x.rest = c :: cs ∧ s.mem c = true ∧ y = ⟨some c, cs⟩
  | concatNode _ _ p q, x, z => ∃ y, p.Takes x y ∧ q.Takes y z
  | alternateNode _ _ p q, x, y => p.Takes x y ∨ q.Takes x y
  | loop p, x, z => ∃ n, Times p.Takes (n + 1) x z
  | upToNode _ p rest, x, z => z = x ∨ ∃ y, p.Takes x y ∧ rest.Takes y z

/-- What may follow a part up to a count need not, and begins with that part again, so that a match
    which moves may as well begin with the first one. -/
structure Opens (p rest : Marked) : Prop where
  self : ∀ x, rest.Takes x x
  first : ∀ {x z}, rest.Takes x z → z ≠ x → ∃ y, p.Takes x y ∧ y ≠ x ∧ rest.Takes y z

/-- Every node knows its parts. -/
def Knows : Marked → Prop
  | empty | look _ | set _ _ => True
  | concatNode e b p q =>
    e = p.emptiness.both q.emptiness ∧ b = (p.busy || q.busy) ∧ p.Knows ∧ q.Knows
  | alternateNode e b p q =>
    e = p.emptiness.either q.emptiness ∧ b = (p.busy || q.busy) ∧ p.Knows ∧ q.Knows
  | loop p => p.Knows
  | upToNode b p rest => b = (p.busy || rest.busy) ∧ p.Knows ∧ rest.Knows ∧ p.Opens rest

section

variable {p q rest : Marked} {x y z : Cursor}

theorem onward_takes (p : Marked) : Onward p.Takes := by
  induction p with
  | empty =>
    rintro x y rfl
    exact .here _
  | look l =>
    intro x y h
    obtain ⟨-, rfl⟩ := h
    exact .here _
  | set s mark =>
    rintro ⟨before, text⟩ y ⟨c, cs, htext, -, rfl⟩
    dsimp only at htext
    rw [htext]
    exact .next (.here _)
  | concatNode e b p q ihp ihq =>
    intro x z h
    obtain ⟨y, hp, hq⟩ := h
    exact (ihp hp).trans (ihq hq)
  | alternateNode e b p q ihp ihq =>
    intro x y h
    rcases h with hp | hq
    · exact ihp hp
    · exact ihq hq
  | loop p ih =>
    intro x z h
    obtain ⟨n, h⟩ := h
    exact ih.times _ h
  | upToNode b p rest ihp ihrest =>
    intro x z h
    rcases h with rfl | ⟨y, hp, hrest⟩
    · exact .here _
    · exact (ihp hp).trans (ihrest hrest)

theorem takes_self_of_always (h : p.Knows) (he : p.emptiness = .always) (x : Cursor) :
    p.Takes x x := by
  induction p with
  | empty => rfl
  | look l => cases he
  | set s mark => cases he
  | concatNode e b p q ihp ihq =>
    obtain ⟨rfl, -, hp, hq⟩ := h
    obtain ⟨hep, heq⟩ := Emptiness.both_eq_always.1 he
    exact ⟨x, ihp hp hep, ihq hq heq⟩
  | alternateNode e b p q ihp ihq =>
    obtain ⟨rfl, -, hp, hq⟩ := h
    rcases Emptiness.either_eq_always.1 he with hep | heq
    · exact Or.inl (ihp hp hep)
    · exact Or.inr (ihq hq heq)
  | loop p ih => exact ⟨0, times_one.2 (ih h he)⟩
  | upToNode b p rest _ _ => exact Or.inl rfl

/-! ### Sequences -/

theorem takes_concat (p q : Marked) :
    (concat p q).Takes x z ↔ ∃ y, p.Takes x y ∧ q.Takes y z := by
  unfold concat
  split
  · constructor
    · intro h
      exact ⟨x, rfl, h⟩
    · intro hparts
      obtain ⟨y, rfl, h⟩ := hparts
      exact h
  · constructor
    · intro h
      exact ⟨z, h, rfl⟩
    · intro hparts
      obtain ⟨y, h, rfl⟩ := hparts
      exact h
  · rfl

theorem knows_concat (hp : p.Knows) (hq : q.Knows) : (concat p q).Knows := by
  unfold concat
  split
  · exact hq
  · exact hp
  · exact ⟨rfl, rfl, hp, hq⟩

/-! ### Repetitions written out -/

theorem takes_upTo (p : Marked) (count : Nat) :
    (p.upTo count).Takes x z ↔ ∃ n, n ≤ count ∧ Times p.Takes n x z := by
  induction count generalizing x with
  | zero =>
    constructor
    · intro hsame
      exact ⟨0, Nat.le_refl 0, hsame⟩
    · intro hrounds
      obtain ⟨n, hn, h⟩ := hrounds
      rw [Nat.le_zero.1 hn] at h
      exact h
  | succ count ih =>
    show (z = x ∨ ∃ y, p.Takes x y ∧ (p.upTo count).Takes y z) ↔ _
    simp only [ih]
    constructor
    · intro htakes
      rcases htakes with hsame | ⟨y, hxy, n, hn, hyz⟩
      · exact ⟨0, Nat.zero_le _, hsame⟩
      · exact ⟨n + 1, Nat.succ_le_succ hn, y, hxy, hyz⟩
    · intro hrounds
      obtain ⟨n, hn, h⟩ := hrounds
      cases n with
      | zero => exact Or.inl h
      | succ n =>
        obtain ⟨y, hxy, hyz⟩ := h
        exact Or.inr ⟨y, hxy, n, Nat.le_of_succ_le_succ hn, hyz⟩

theorem opens_upTo (p : Marked) (count : Nat) : p.Opens (p.upTo count) where
  self x := (takes_upTo p count).2 ⟨0, Nat.zero_le _, rfl⟩
  first {x z} h hne := by
    obtain ⟨n, hn, htimes⟩ := (takes_upTo p count).1 h
    obtain ⟨y, k, hxy, hy, hk, hyz⟩ := htimes.first hne
    exact ⟨y, hxy, hy, (takes_upTo p count).2 ⟨k, by omega, hyz⟩⟩

theorem knows_upTo (h : p.Knows) (count : Nat) : (p.upTo count).Knows := by
  induction count with
  | zero => trivial
  | succ count ih => exact ⟨rfl, h, ih, opens_upTo p count⟩

theorem takes_times (p : Marked) (count : Nat) : (p.times count).Takes = Times p.Takes count := by
  fun_induction times p count with
  | case1 => rfl
  | case2 =>
    funext x z
    exact propext times_one.symm
  | case3 count _ _ half _ ih =>
    funext x z
    have hcount : count = count / 2 + count / 2 := by omega
    rw [takes_concat, ih, ← times_add, ← hcount]
  | case4 count _ _ half _ ih =>
    funext x z
    have hcount : count = count / 2 + (count / 2 + 1) := by omega
    rw [takes_concat]
    simp only [takes_concat, half, ih, ← times_one (R := p.Takes), ← times_add]
    rw [← hcount]

theorem knows_times (h : p.Knows) (count : Nat) : (p.times count).Knows := by
  fun_induction times p count with
  | case1 => trivial
  | case2 => exact h
  | case3 _ _ _ half _ ih => exact knows_concat ih ih
  | case4 _ _ _ half _ ih => exact knows_concat ih (knows_concat ih h)

theorem takes_anyTimes (p : Marked) : p.anyTimes.Takes x z ↔ ∃ n, Times p.Takes n x z := by
  show z = x ∨ (∃ n, Times p.Takes (n + 1) x z) ↔ _
  constructor
  · intro htakes
    rcases htakes with hsame | ⟨n, h⟩
    · exact ⟨0, hsame⟩
    · exact ⟨n + 1, h⟩
  · intro hrounds
    obtain ⟨n, h⟩ := hrounds
    cases n with
    | zero => exact Or.inl h
    | succ n => exact Or.inr ⟨n, h⟩

/-- A repetition takes what its part does, as often as its counts allow. -/
theorem takes_repeated (h : p.Knows) (min : Nat) (max? : Option Nat) :
    (p.repeated min max?).Takes x z ↔
      ∃ n, min ≤ n ∧ (∀ max ∈ max?, n ≤ Nat.max min max) ∧ Times p.Takes n x z := by
  unfold repeated
  split
  · -- fewer rounds come to the same as more that do not move
    rename_i max he
    have hself : ∀ x, p.Takes x x := takes_self_of_always h he
    rw [takes_upTo]
    constructor
    · intro htakes
      obtain ⟨n, hn, htimes⟩ := htakes
      refine ⟨Nat.max min max, Nat.le_max_left _ _, ?_, htimes.mono hself hn⟩
      rintro _ ⟨⟩
      exact Nat.le_refl _
    · intro hrounds
      obtain ⟨n, -, hmax, htimes⟩ := hrounds
      exact ⟨n, hmax max rfl, htimes⟩
  · rename_i he
    have hself : ∀ x, p.Takes x x := takes_self_of_always h he
    rw [takes_anyTimes]
    constructor
    · intro htakes
      obtain ⟨n, htimes⟩ := htakes
      exact ⟨min + n, Nat.le_add_right _ _, nofun, htimes.mono hself (Nat.le_add_left _ _)⟩
    · intro hrounds
      obtain ⟨n, -, -, htimes⟩ := hrounds
      exact ⟨n, htimes⟩
  · rename_i max _
    rw [takes_concat]
    simp only [takes_times, takes_upTo, exists_times_add]
    constructor
    · intro htakes
      obtain ⟨n, hn, htimes⟩ := htakes
      refine ⟨min + n, Nat.le_add_right _ _, ?_, htimes⟩
      rintro _ ⟨⟩
      show min + n ≤ Max.max min max
      omega
    · intro hrounds
      obtain ⟨n, hmin, hmax, htimes⟩ := hrounds
      have hle : n ≤ Max.max min max := hmax max rfl
      obtain ⟨k, rfl⟩ := Nat.exists_eq_add_of_le hmin
      exact ⟨k, by omega, htimes⟩
  · split
    · rename_i hzero
      rw [takes_anyTimes, hzero]
      constructor
      · intro htakes
        obtain ⟨n, htimes⟩ := htakes
        exact ⟨n, Nat.zero_le _, nofun, htimes⟩
      · intro hrounds
        obtain ⟨n, -, -, htimes⟩ := hrounds
        exact ⟨n, htimes⟩
    · rename_i hpos
      rw [takes_concat, takes_times]
      constructor
      · intro htakes
        obtain ⟨y, hfirst, n, hrest⟩ := htakes
        exact ⟨min - 1 + (n + 1), by omega, nofun, times_add.2 ⟨y, hfirst, hrest⟩⟩
      · intro hrounds
        obtain ⟨n, hmin, -, htimes⟩ := hrounds
        obtain ⟨k, rfl⟩ : ∃ k, n = min - 1 + (k + 1) := ⟨n - min, by omega⟩
        obtain ⟨y, hfirst, hrest⟩ := times_add.1 htimes
        exact ⟨y, hfirst, k, hrest⟩

theorem knows_repeated (h : p.Knows) (min : Nat) (max? : Option Nat) :
    (p.repeated min max?).Knows := by
  have hAny : p.anyTimes.Knows := ⟨rfl, rfl, trivial, h⟩
  unfold repeated
  split
  · exact knows_upTo h _
  · exact hAny
  · exact knows_concat (knows_times h _) (knows_upTo h _)
  · split
    · exact hAny
    · exact knows_concat (knows_times h _) h

theorem knows_ofPattern (p : Pattern) : (ofPattern p).Knows := by
  induction p with
  | empty => trivial
  | set s => trivial
  | look l => trivial
  | concat p q ihp ihq => exact knows_concat ihp ihq
  | alternate p q ihp ihq => exact ⟨rfl, rfl, ihp, ihq⟩
  | «repeat» p min max? ih => exact knows_repeated ih min max?

/-- To write repetitions out does not change what a pattern takes. -/
theorem takes_ofPattern (p : Pattern) : (ofPattern p).Takes = p.Takes := by
  induction p with
  | empty => rfl
  | set s => rfl
  | look l => rfl
  | concat p q ihp ihq =>
    funext x z
    show (concat (ofPattern p) (ofPattern q)).Takes x z = _
    rw [takes_concat, ihp, ihq]
    rfl
  | alternate p q ihp ihq =>
    funext x z
    show ((ofPattern p).Takes x z ∨ (ofPattern q).Takes x z) = _
    rw [ihp, ihq]
    rfl
  | «repeat» p min max? ih =>
    funext x z
    show ((ofPattern p).repeated min max?).Takes x z = _
    rw [takes_repeated (knows_ofPattern p), ih]
    rfl

end

end Marked

end Pattern

end ManagedModel
