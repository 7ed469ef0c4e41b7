import ManagedModel.Pattern.Engine
import ManagedModel.Proofs.Matching

/-! # What a search finds

    A search goes over a text once and never back. It finds just the texts of
    which the pattern takes some part (`Pattern.isFoundIn_iff`), and so does the
    engine of this library for every pattern that it compiles
    (`PatternEngine.standard_compile`).

    * `Marked.Goes` says where the matches under way can still lead. A node that
      knows its parts answers for them: it allows the empty text where they take
      it (`Marked.allowsEmpty_iff`), and a match ends where their marks are
      (`Marked.ends_iff`).
    * Behind a character, the matches under way are those that were under way
      before it or began there, and lead beyond that place (`Marked.Moves`,
      `Marked.goes_advance`): one lemma for each kind of node, and the step from
      these.
    * From the step the whole search follows by induction on the text
      (`Marked.isCompletedIn_iff`). -/

namespace ManagedModel

namespace Cursor

/-- The characters on either side. -/
def place (x : Cursor) : TextPlace := ⟨x.before, x.rest.head?⟩

section

variable {R R' : Cursor → Cursor → Prop} {x y z : Cursor} {before : Option Char} {c : Char}
  {cs : List Char} {n : Nat}

theorem Leads.eq_or_length_lt (h : x.Leads y) : y = x ∨ y.rest.length < x.rest.length := by
  induction h with
  | here => exact Or.inl rfl
  | next _ ih =>
    right
    rcases ih with rfl | hlt
    · exact Nat.lt_succ_self _
    · exact Nat.lt_succ_of_lt hlt

theorem Leads.antisymm (h : x.Leads y) (h' : y.Leads x) : y = x := by
  rcases h.eq_or_length_lt with hsame | hlt
  · exact hsame
  · rcases h'.eq_or_length_lt with hsame' | hlt'
    · exact hsame'.symm
    · omega

theorem Leads.eq_of_nil (h : Leads ⟨before, []⟩ y) : y = ⟨before, []⟩ := by
  cases h
  rfl

theorem Leads.ne_of_next (h : Leads ⟨some c, cs⟩ y) : y ≠ ⟨before, c :: cs⟩ := by
  rintro rfl
  have hle : (c :: cs).length ≤ cs.length := by
    rcases h.eq_or_length_lt with hsame | hlt
    · exact Nat.le_of_eq (congrArg (·.rest.length) hsame)
    · exact Nat.le_of_lt hlt
  rw [List.length_cons] at hle
  omega

theorem Leads.ne_of_ne (h : x.Leads y) (hne : y ≠ x) (h' : y.Leads z) : z ≠ x := by
  rintro rfl
  exact hne (h.antisymm h')

/-- Who comes back to a place has never left it. -/
theorem Onward.exists_back_iff (hR : Onward R) (hR' : Onward R') :
    (∃ y, R x y ∧ R' y x) ↔ R x x ∧ R' x x := by
  constructor
  · intro hback
    obtain ⟨y, hxy, hyx⟩ := hback
    have hsame : y = x := (hR hxy).antisymm (hR' hyx)
    rw [hsame] at hxy hyx
    exact ⟨hxy, hyx⟩
  · intro hstay
    exact ⟨x, hstay⟩

theorem Onward.of_times_self (hR : Onward R) (h : Times R (n + 1) x x) : R x x :=
  ((hR.exists_back_iff (hR.times n)).1 h).1

end

end Cursor

open Cursor

namespace Pattern

namespace Emptiness

variable {e e' : Emptiness}

theorem both_eq_never : e.both e' = never ↔ e = never ∨ e' = never := by
  cases e <;> cases e' <;> decide

theorem either_eq_never : e.either e' = never ↔ e = never ∧ e' = never := by
  cases e <;> cases e' <;> decide

end Emptiness

namespace Marked

section

variable {p q rest : Marked} {x y z : Cursor}

/-! ### The empty text -/

theorem not_takes_self_of_never (h : p.Knows) (he : p.emptiness = .never) (x : Cursor) :
    ¬ p.Takes x x := by
  induction p with
  | empty => cases he
  | look l => cases he
  | set s mark =>
    intro htakes
    obtain ⟨c, cs, hrest, -, rfl⟩ := htakes
    have hlength := congrArg List.length hrest
    simp at hlength
  | concatNode e b p q ihp ihq =>
    obtain ⟨rfl, -, hp, hq⟩ := h
    intro htakes
    obtain ⟨hxp, hxq⟩ := (p.onward_takes.exists_back_iff q.onward_takes).1 htakes
    rcases Emptiness.both_eq_never.1 he with hep | heq
    · exact ihp hp hep hxp
    · exact ihq hq heq hxq
  | alternateNode e b p q ihp ihq =>
    obtain ⟨rfl, -, hp, hq⟩ := h
    obtain ⟨hep, heq⟩ := Emptiness.either_eq_never.1 he
    intro htakes
    rcases htakes with hxp | hxq
    · exact ihp hp hep hxp
    · exact ihq hq heq hxq
  | loop p ih =>
    intro htakes
    obtain ⟨n, hn⟩ := htakes
    exact ih h he (p.onward_takes.of_times_self hn)
  | upToNode b p rest _ _ => cases he

/-- A pattern allows the empty text at a place just if it takes nothing there. -/
theorem allowsEmpty_iff (h : p.Knows) (x : Cursor) :
    p.allowsEmpty x.place = true ↔ p.Takes x x := by
  induction p with
  | empty => exact iff_of_true rfl rfl
  | look l => exact ⟨fun hl => ⟨hl, rfl⟩, fun hl => hl.1⟩
  | set s mark =>
    exact iff_of_false nofun (not_takes_self_of_never (p := set s mark) trivial rfl x)
  | concatNode e b p q ihp ihq =>
    have hknows := h
    obtain ⟨-, -, hp, hq⟩ := h
    cases e with
    | never => exact iff_of_false nofun (not_takes_self_of_never hknows rfl x)
    | always => exact iff_of_true rfl (takes_self_of_always hknows rfl x)
    | conditional =>
      show (p.allowsEmpty x.place && q.allowsEmpty x.place) = true ↔ _
      rw [Bool.and_eq_true, ihp hp, ihq hq]
      exact (p.onward_takes.exists_back_iff q.onward_takes).symm
  | alternateNode e b p q ihp ihq =>
    have hknows := h
    obtain ⟨-, -, hp, hq⟩ := h
    cases e with
    | never => exact iff_of_false nofun (not_takes_self_of_never hknows rfl x)
    | always => exact iff_of_true rfl (takes_self_of_always hknows rfl x)
    | conditional =>
      show (p.allowsEmpty x.place || q.allowsEmpty x.place) = true ↔ _
      rw [Bool.or_eq_true, ihp hp, ihq hq]
      rfl
  | loop p ih =>
    apply (ih h).trans
    constructor
    · intro hp
      exact ⟨0, times_one.2 hp⟩
    · intro hrounds
      obtain ⟨n, hn⟩ := hrounds
      exact p.onward_takes.of_times_self hn
  | upToNode b p rest _ _ => exact iff_of_true rfl (Or.inl rfl)

/-! ### Matches under way -/

/-- A match under way, which has come to the first place, leads to the second one. -/
def Goes : Marked → Cursor → Cursor → Prop
  | empty, _, _ => False
  | look _, _, _ => False
  | set _ mark, x, y => mark = true ∧ y = x
  | concatNode _ _ p q, x, z => (∃ y, p.Goes x y ∧ q.Takes y z) ∨ q.Goes x z
  | alternateNode _ _ p q, x, y => p.Goes x y ∨ q.Goes x y
  | loop p, x, z => ∃ y n, p.Goes x y ∧ Times p.Takes n y z
  | upToNode _ p rest, x, z => (∃ y, p.Goes x y ∧ rest.Takes y z) ∨ rest.Goes x z

theorem onward_goes (p : Marked) : Onward p.Goes := by
  induction p with
  | empty => exact fun _ _ h => h.elim
  | look l => exact fun _ _ h => h.elim
  | set s mark =>
    intro x y h
    obtain ⟨-, rfl⟩ := h
    exact .here _
  | concatNode e b p q ihp ihq =>
    intro x z h
    rcases h with ⟨y, hp, hq⟩ | hq
    · exact (ihp hp).trans (q.onward_takes hq)
    · exact ihq hq
  | alternateNode e b p q ihp ihq =>
    intro x y h
    rcases h with hp | hq
    · exact ihp hp
    · exact ihq hq
  | loop p ih =>
    intro x z h
    obtain ⟨y, n, hp, hn⟩ := h
    exact (ih hp).trans (p.onward_takes.times n hn)
  | upToNode b p rest ihp ihrest =>
    intro x z h
    rcases h with ⟨y, hp, hrest⟩ | hrest
    · exact (ihp hp).trans (rest.onward_takes hrest)
    · exact ihrest hrest

/-- Without marks no match is under way. -/
theorem not_goes_of_not_busy (h : p.Knows) (hbusy : p.busy = false) : ¬ p.Goes x z := by
  induction p generalizing x z with
  | empty => exact id
  | look l => exact id
  | set s mark =>
    intro hgoes
    obtain ⟨hmark, -⟩ := hgoes
    rw [show mark = false from hbusy] at hmark
    cases hmark
  | concatNode e b p q ihp ihq =>
    obtain ⟨-, rfl, hp, hq⟩ := h
    obtain ⟨hbp, hbq⟩ := Bool.or_eq_false_iff.1 hbusy
    intro hgoes
    rcases hgoes with ⟨y, hxy, -⟩ | hxz
    · exact ihp hp hbp hxy
    · exact ihq hq hbq hxz
  | alternateNode e b p q ihp ihq =>
    obtain ⟨-, rfl, hp, hq⟩ := h
    obtain ⟨hbp, hbq⟩ := Bool.or_eq_false_iff.1 hbusy
    intro hgoes
    rcases hgoes with hxp | hxq
    · exact ihp hp hbp hxp
    · exact ihq hq hbq hxq
  | loop p ih =>
    intro hgoes
    obtain ⟨y, n, hxy, -⟩ := hgoes
    exact ih h hbusy hxy
  | upToNode b p rest ihp ihrest =>
    obtain ⟨rfl, hp, hrest, -⟩ := h
    obtain ⟨hbp, hbrest⟩ := Bool.or_eq_false_iff.1 hbusy
    intro hgoes
    rcases hgoes with ⟨y, hxy, -⟩ | hxz
    · exact ihp hp hbp hxy
    · exact ihrest hrest hbrest hxz

/-- A match under way can end at a place just if it leads no further. -/
theorem ends_iff (h : p.Knows) (x : Cursor) : p.ends x.place = true ↔ p.Goes x x := by
  induction p with
  | empty => exact iff_of_false nofun id
  | look l => exact iff_of_false nofun id
  | set s mark => exact ⟨fun hmark => ⟨hmark, rfl⟩, fun hmark => hmark.1⟩
  | concatNode e b p q ihp ihq =>
    have hknows := h
    obtain ⟨-, -, hp, hq⟩ := h
    cases b with
    | false => exact iff_of_false nofun (not_goes_of_not_busy hknows rfl)
    | true =>
      show (q.ends x.place || (p.ends x.place && q.allowsEmpty x.place)) = true ↔ _
      rw [Bool.or_eq_true, Bool.and_eq_true, ihp hp, ihq hq, allowsEmpty_iff hq,
        ← p.onward_goes.exists_back_iff q.onward_takes]
      exact or_comm
  | alternateNode e b p q ihp ihq =>
    have hknows := h
    obtain ⟨-, -, hp, hq⟩ := h
    cases b with
    | false => exact iff_of_false nofun (not_goes_of_not_busy hknows rfl)
    | true =>
      show (p.ends x.place || q.ends x.place) = true ↔ _
      rw [Bool.or_eq_true, ihp hp, ihq hq]
      rfl
  | loop p ih =>
    apply (ih h).trans
    constructor
    · intro hp
      exact ⟨x, 0, hp, rfl⟩
    · intro hrounds
      obtain ⟨y, n, hback⟩ := hrounds
      exact ((p.onward_goes.exists_back_iff (p.onward_takes.times n)).1 ⟨y, hback⟩).1
  | upToNode b p rest ihp ihrest =>
    have hknows := h
    obtain ⟨-, hp, hrest, hopens⟩ := h
    cases b with
    | false => exact iff_of_false nofun (not_goes_of_not_busy hknows rfl)
    | true =>
      show (p.ends x.place || rest.ends x.place) = true ↔ _
      rw [Bool.or_eq_true, ihp hp, ihrest hrest, ← and_iff_left (a := p.Goes x x) (hopens.self x),
        ← p.onward_goes.exists_back_iff rest.onward_takes]
      rfl

theorem goes_concat (p q : Marked) :
    (concat p q).Goes x z ↔ (∃ y, p.Goes x y ∧ q.Takes y z) ∨ q.Goes x z := by
  unfold concat
  split
  · constructor
    · intro h
      exact Or.inr h
    · intro h
      rcases h with ⟨y, hfalse, -⟩ | h
      · exact hfalse.elim
      · exact h
  · constructor
    · intro h
      exact Or.inl ⟨z, h, rfl⟩
    · intro h
      rcases h with ⟨y, h, rfl⟩ | hfalse
      · exact h
      · exact hfalse.elim
  · rfl

end

/-! ### One character -/

section

variable {p q rest : Marked} {x x' z : Cursor} {before : Option Char} {c : Char} {cs : List Char}
  {enter enter' : Bool} {e : Emptiness} {b : Bool}

/-- The marks do not change what the pattern takes. -/
theorem takes_advance (a : TextPlace) (c : Char) (enter : Bool) (p : Marked) :
    (p.advance a c enter).Takes = p.Takes := by
  induction p generalizing enter with
  | empty => rfl
  | look l => rfl
  | set s mark => rfl
  | concatNode e b p q ihp ihq =>
    unfold advance
    split
    · funext x z
      rw [takes_concat, ihp, ihq]
      rfl
    · rfl
  | alternateNode e b p q ihp ihq =>
    unfold advance
    split
    · funext x z
      show ((p.advance a c enter).Takes x z ∨ (q.advance a c enter).Takes x z) = _
      rw [ihp, ihq]
      rfl
    · rfl
  | loop p ih =>
    funext x z
    show (∃ n, Times (p.advance a c (enter || p.ends a)).Takes (n + 1) x z) = _
    rw [ih]
    rfl
  | upToNode b p rest ihp ihrest =>
    unfold advance
    split
    · funext x z
      show (z = x ∨ ∃ y, (p.advance a c enter).Takes x y ∧
        (rest.advance a c (p.ends a)).Takes y z) = _
      rw [ihp, ihrest]
      rfl
    · rfl

theorem knows_advance (h : p.Knows) (a : TextPlace) (c : Char) (enter : Bool) :
    (p.advance a c enter).Knows := by
  induction p generalizing enter with
  | empty => trivial
  | look l => trivial
  | set s mark => trivial
  | concatNode e b p q ihp ihq =>
    unfold advance
    split
    · exact knows_concat (ihp h.2.2.1 _) (ihq h.2.2.2 _)
    · exact h
  | alternateNode e b p q ihp ihq =>
    unfold advance
    split
    · exact ⟨rfl, rfl, ihp h.2.2.1 _, ihq h.2.2.2 _⟩
    · exact h
  | loop p ih => exact ih h _
  | upToNode b p rest ihp ihrest =>
    unfold advance
    split
    · obtain ⟨-, hp, hrest, hopens⟩ := h
      refine ⟨rfl, ihp hp _, ihrest hrest _, ?_, ?_⟩
      · rw [takes_advance]
        exact hopens.self
      · rw [takes_advance, takes_advance]
        exact hopens.first
    · exact h

/-- A match is under way at the first place, or begins there if matches may, and leads to the second
    one. -/
def Runs (p : Marked) (enter : Bool) (x z : Cursor) : Prop :=
  p.Goes x z ∨ enter = true ∧ p.Takes x z

/-- Such a match leads beyond the place. -/
def Moves (p : Marked) (enter : Bool) (x z : Cursor) : Prop := z ≠ x ∧ p.Runs enter x z

theorem Runs.leads (h : p.Runs enter x z) : x.Leads z := by
  rcases h with hgoes | ⟨-, htakes⟩
  · exact p.onward_goes hgoes
  · exact p.onward_takes htakes

/-- A pattern is entered behind another one where a match of that one ends. -/
theorem entered_iff (h : p.Knows) (x : Cursor) (enter : Bool) :
    ((enter && p.allowsEmpty x.place) || p.ends x.place) = true ↔ p.Runs enter x x := by
  rw [Bool.or_eq_true, Bool.and_eq_true, allowsEmpty_iff h, ends_iff h]
  exact or_comm

/-- A pattern in which nothing happens has no matches before a character nor behind it. -/
theorem goes_iff_of_idle (h : p.Knows) (hidle : ¬ (enter || p.busy) = true) :
    p.Goes x' z ↔ p.Moves enter x z := by
  rw [Bool.not_eq_true, Bool.or_eq_false_iff] at hidle
  obtain ⟨rfl, hbusy⟩ := hidle
  apply iff_of_false (not_goes_of_not_busy h hbusy)
  intro hmoves
  rcases hmoves with ⟨-, hgoes | ⟨hfalse, -⟩⟩
  · exact not_goes_of_not_busy h hbusy hgoes
  · cases hfalse

theorem moves_set {s : CharSet} {mark : Bool} :
    (set s mark).Moves enter ⟨before, c :: cs⟩ z ↔
      (enter && s.mem c) = true ∧ z = ⟨some c, cs⟩ := by
  rw [Bool.and_eq_true]
  constructor
  · intro hmoves
    rcases hmoves with ⟨hz, ⟨-, hsame⟩ | ⟨henter, c', cs', hrest, hmem, rfl⟩⟩
    · exact absurd hsame hz
    · cases hrest
      exact ⟨⟨henter, hmem⟩, rfl⟩
  · intro hmarked
    obtain ⟨⟨henter, hmem⟩, rfl⟩ := hmarked
    exact ⟨(Leads.here _).ne_of_next, Or.inr ⟨henter, c, cs, rfl, hmem, rfl⟩⟩

theorem runs_concatNode :
    (concatNode e b p q).Runs enter x z ↔
      (∃ y, p.Runs enter x y ∧ q.Takes y z) ∨ q.Goes x z := by
  constructor
  · intro hruns
    rcases hruns with (⟨y, hgoes, hq⟩ | hq) | ⟨henter, y, htakes, hq⟩
    · exact Or.inl ⟨y, Or.inl hgoes, hq⟩
    · exact Or.inr hq
    · exact Or.inl ⟨y, Or.inr ⟨henter, htakes⟩, hq⟩
  · intro hparts
    rcases hparts with ⟨y, hgoes | ⟨henter, htakes⟩, hq⟩ | hq
    · exact Or.inl (Or.inl ⟨y, hgoes, hq⟩)
    · exact Or.inr ⟨henter, y, htakes, hq⟩
    · exact Or.inl (Or.inr hq)

/-- The first part moves, or it does not and the second one does. -/
theorem moves_concatNode (hentered : enter' = true ↔ p.Runs enter x x) :
    (concatNode e b p q).Moves enter x z ↔
      (∃ y, p.Moves enter x y ∧ q.Takes y z) ∨ q.Moves enter' x z := by
  constructor
  · intro hmoves
    obtain ⟨hz, hruns⟩ := hmoves
    rcases runs_concatNode.1 hruns with ⟨y, hruns, hyz⟩ | hgoes
    · by_cases hy : y = x
      · rw [hy] at hruns hyz
        have henter' : enter' = true := hentered.2 hruns
        right
        exact ⟨hz, Or.inr ⟨henter', hyz⟩⟩
      · left
        exact ⟨y, ⟨hy, hruns⟩, hyz⟩
    · right
      exact ⟨hz, Or.inl hgoes⟩
  · intro hparts
    rcases hparts with ⟨y, ⟨hy, hruns⟩, hyz⟩ | ⟨hz, hgoes | ⟨henter', htakes⟩⟩
    · have hz : z ≠ x := hruns.leads.ne_of_ne hy (q.onward_takes hyz)
      exact ⟨hz, runs_concatNode.2 (Or.inl ⟨y, hruns, hyz⟩)⟩
    · exact ⟨hz, runs_concatNode.2 (Or.inr hgoes)⟩
    · have hstays : p.Runs enter x x := hentered.1 henter'
      exact ⟨hz, runs_concatNode.2 (Or.inl ⟨x, hstays, htakes⟩)⟩

theorem runs_alternateNode :
    (alternateNode e b p q).Runs enter x z ↔ p.Runs enter x z ∨ q.Runs enter x z := by
  show ((p.Goes x z ∨ q.Goes x z) ∨ enter = true ∧ (p.Takes x z ∨ q.Takes x z)) ↔ _
  rw [and_or_left]
  exact or_or_or_comm

theorem moves_alternateNode :
    (alternateNode e b p q).Moves enter x z ↔ p.Moves enter x z ∨ q.Moves enter x z := by
  show (z ≠ x ∧ (alternateNode e b p q).Runs enter x z) ↔ _
  rw [runs_alternateNode, and_or_left]
  rfl

/-- A round is under way, or a new one begins where the loop is entered or a round ends. -/
theorem moves_loop (hentered : enter' = true ↔ enter = true ∨ p.Goes x x) :
    (loop p).Moves enter x z ↔ ∃ y n, p.Moves enter' x y ∧ Times p.Takes n y z := by
  constructor
  · intro hmoves
    rcases hmoves with ⟨hz, ⟨y, n, hgoes, hn⟩ | ⟨henter, n, hn⟩⟩
    · by_cases hy : y = x
      · rw [hy] at hgoes hn
        have henter' : enter' = true := hentered.2 (Or.inr hgoes)
        obtain ⟨y', k, htakes, hy', -, hk⟩ := hn.first hz
        exact ⟨y', k, ⟨hy', Or.inr ⟨henter', htakes⟩⟩, hk⟩
      · exact ⟨y, n, ⟨hy, Or.inl hgoes⟩, hn⟩
    · have henter' : enter' = true := hentered.2 (Or.inl henter)
      obtain ⟨y, k, htakes, hy, -, hk⟩ := hn.first hz
      exact ⟨y, k, ⟨hy, Or.inr ⟨henter', htakes⟩⟩, hk⟩
  · intro hrounds
    obtain ⟨y, n, ⟨hy, hruns⟩, hn⟩ := hrounds
    have hz : z ≠ x := hruns.leads.ne_of_ne hy (p.onward_takes.times n hn)
    refine ⟨hz, ?_⟩
    rcases hruns with hgoes | ⟨henter', htakes⟩
    · exact Or.inl ⟨y, n, hgoes, hn⟩
    · rcases hentered.1 henter' with henter | hgoes
      · exact Or.inr ⟨henter, n, y, htakes, hn⟩
      · exact Or.inl ⟨x, n + 1, hgoes, y, htakes, hn⟩

/-- What the rest does behind a first repetition that does not move, the first one does. -/
theorem moves_upToNode (hopens : p.Opens rest) (hentered : enter' = true ↔ p.Goes x x) :
    (upToNode b p rest).Moves enter x z ↔
      (∃ y, p.Moves enter x y ∧ rest.Takes y z) ∨ rest.Moves enter' x z := by
  have hfirst : ∀ {y}, p.Runs enter x y → rest.Takes y z → z ≠ x →
      (∃ y, p.Moves enter x y ∧ rest.Takes y z) ∨ rest.Moves enter' x z := by
    intro y hruns hyz hz
    by_cases hy : y = x
    · rw [hy] at hruns hyz
      rcases hruns with hgoes | ⟨henter, -⟩
      · have henter' : enter' = true := hentered.2 hgoes
        right
        exact ⟨hz, Or.inr ⟨henter', hyz⟩⟩
      · obtain ⟨y', htakes, hy', hrest⟩ := hopens.first hyz hz
        left
        exact ⟨y', ⟨hy', Or.inr ⟨henter, htakes⟩⟩, hrest⟩
    · left
      exact ⟨y, ⟨hy, hruns⟩, hyz⟩
  constructor
  · intro hmoves
    rcases hmoves with ⟨hz, (⟨y, hgoes, hyz⟩ | hgoes) | ⟨henter, hsame | ⟨y, htakes, hyz⟩⟩⟩
    · exact hfirst (Or.inl hgoes) hyz hz
    · right
      exact ⟨hz, Or.inl hgoes⟩
    · exact absurd hsame hz
    · exact hfirst (Or.inr ⟨henter, htakes⟩) hyz hz
  · intro hparts
    rcases hparts with ⟨y, ⟨hy, hruns⟩, hyz⟩ | ⟨hz, hgoes | ⟨henter', htakes⟩⟩
    · have hz : z ≠ x := hruns.leads.ne_of_ne hy (rest.onward_takes hyz)
      refine ⟨hz, ?_⟩
      rcases hruns with hgoes | ⟨henter, htakes⟩
      · exact Or.inl (Or.inl ⟨y, hgoes, hyz⟩)
      · exact Or.inr ⟨henter, Or.inr ⟨y, htakes, hyz⟩⟩
    · exact ⟨hz, Or.inl (Or.inr hgoes)⟩
    · have hends : p.Goes x x := hentered.1 henter'
      exact ⟨hz, Or.inl (Or.inl ⟨x, hends, htakes⟩)⟩

/-- Behind a character, the matches under way are those that lead beyond the place before it. -/
theorem goes_advance (h : p.Knows) :
    (p.advance (place ⟨before, c :: cs⟩) c enter).Goes ⟨some c, cs⟩ z ↔
      p.Moves enter ⟨before, c :: cs⟩ z := by
  induction p generalizing enter z with
  | empty =>
    apply iff_of_false id
    intro hmoves
    rcases hmoves with ⟨hz, hfalse | ⟨-, hsame⟩⟩
    · exact hfalse
    · exact hz hsame
  | look l =>
    apply iff_of_false id
    intro hmoves
    rcases hmoves with ⟨hz, hfalse | ⟨-, -, hsame⟩⟩
    · exact hfalse
    · exact hz hsame
  | set s mark => exact moves_set.symm
  | concatNode e b p q ihp ihq =>
    have hknows := h
    obtain ⟨-, -, hp, hq⟩ := h
    unfold advance
    split
    · rw [goes_concat, takes_advance, moves_concatNode (entered_iff hp _ enter), ihq hq]
      simp only [ihp hp]
    · rename_i hidle
      exact goes_iff_of_idle hknows hidle
  | alternateNode e b p q ihp ihq =>
    have hknows := h
    obtain ⟨-, -, hp, hq⟩ := h
    unfold advance
    split
    · rw [moves_alternateNode, ← ihp hp, ← ihq hq]
      rfl
    · rename_i hidle
      exact goes_iff_of_idle hknows hidle
  | loop p ih =>
    have hentered : (enter || p.ends (place ⟨before, c :: cs⟩)) = true ↔
        enter = true ∨ p.Goes ⟨before, c :: cs⟩ ⟨before, c :: cs⟩ := by
      rw [Bool.or_eq_true, ends_iff (p := p) h]
    rw [moves_loop hentered]
    simp only [← ih h]
    rw [← takes_advance _ c _ p]
    rfl
  | upToNode b p rest ihp ihrest =>
    have hknows := h
    obtain ⟨-, hp, hrest, hopens⟩ := h
    unfold advance
    split
    · rw [moves_upToNode hopens (ends_iff hp _), ← ihrest hrest]
      simp only [← ihp hp]
      rw [← takes_advance _ c _ rest]
      rfl
    · rename_i hidle
      exact goes_iff_of_idle hknows hidle

/-! ### The whole text -/

/-- The search succeeds just if a match under way ends in the text, or one begins there and ends. -/
theorem isCompletedIn_iff (h : p.Knows) (before : Option Char) (text : List Char) :
    p.isCompletedIn before text = true ↔
      (∃ z, p.Goes ⟨before, text⟩ z) ∨ ∃ y z, Leads ⟨before, text⟩ y ∧ p.Takes y z := by
  -- for any marks, since behind a character the same is asked of the pattern with its marks moved
  induction text generalizing p before with
  | nil =>
    show (p.allowsEmpty (place ⟨before, []⟩) || p.ends (place ⟨before, []⟩)) = true ↔ _
    rw [Bool.or_eq_true, allowsEmpty_iff h, ends_iff h]
    constructor
    · intro hfound
      rcases hfound with htakes | hgoes
      · exact Or.inr ⟨_, _, .here _, htakes⟩
      · exact Or.inl ⟨_, hgoes⟩
    · intro hmatch
      rcases hmatch with ⟨z, hgoes⟩ | ⟨y, z, hy, htakes⟩
      · rw [(p.onward_goes hgoes).eq_of_nil] at hgoes
        exact Or.inr hgoes
      · rw [hy.eq_of_nil] at htakes
        rw [(p.onward_takes htakes).eq_of_nil] at htakes
        exact Or.inl htakes
  | cons c cs ih =>
    show (p.allowsEmpty (place ⟨before, c :: cs⟩) || p.ends (place ⟨before, c :: cs⟩) ||
      isCompletedIn (some c) cs (p.advance (place ⟨before, c :: cs⟩) c true)) = true ↔ _
    rw [Bool.or_eq_true, Bool.or_eq_true, allowsEmpty_iff h, ends_iff h,
      ih (knows_advance h _ _ _), takes_advance]
    simp only [goes_advance h]
    constructor
    · intro hfound
      rcases hfound with (htakes | hgoes) | ⟨z, -, hgoes | ⟨-, htakes⟩⟩ | ⟨y, z, hy, htakes⟩
      · exact Or.inr ⟨_, _, .here _, htakes⟩
      · exact Or.inl ⟨_, hgoes⟩
      · exact Or.inl ⟨z, hgoes⟩
      · exact Or.inr ⟨_, z, .here _, htakes⟩
      · exact Or.inr ⟨y, z, .next hy, htakes⟩
    · -- a match that does not move has ended, and one that does is under way behind the character
      have hruns : ∀ {z : Cursor}, p.Runs true ⟨before, c :: cs⟩ z →
          (p.Takes ⟨before, c :: cs⟩ ⟨before, c :: cs⟩ ∨
            p.Goes ⟨before, c :: cs⟩ ⟨before, c :: cs⟩) ∨
          (∃ z, p.Moves true ⟨before, c :: cs⟩ z) ∨
          ∃ y z, Leads ⟨some c, cs⟩ y ∧ p.Takes y z := by
        intro z hz
        by_cases hmoves : z = ⟨before, c :: cs⟩
        · rw [hmoves] at hz
          rcases hz with hgoes | ⟨-, htakes⟩
          · exact Or.inl (Or.inr hgoes)
          · exact Or.inl (Or.inl htakes)
        · exact Or.inr (Or.inl ⟨z, hmoves, hz⟩)
      intro hmatch
      rcases hmatch with ⟨z, hgoes⟩ | ⟨y, z, hy, htakes⟩
      · exact hruns (Or.inl hgoes)
      · cases hy with
        | here => exact hruns (Or.inr ⟨rfl, htakes⟩)
        | next hy => exact Or.inr (Or.inr ⟨y, z, hy, htakes⟩)

end

end Marked

/-- A search succeeds just if the pattern takes some part of the text. -/
theorem isFoundIn_iff (p : Pattern) (text : String) :
    p.isFoundIn text = true ↔ p.TakesPartOf text := by
  have hnone : ∀ z, ¬ (Marked.ofPattern p).Goes ⟨none, text.toList⟩ z := fun z =>
    Marked.not_goes_of_not_busy (Marked.knows_ofPattern p) (Marked.busy_ofPattern p)
  unfold isFoundIn
  rw [Marked.isCompletedIn_iff (Marked.knows_ofPattern p), Marked.takes_ofPattern]
  constructor
  · intro hfound
    rcases hfound with ⟨z, hgoes⟩ | ⟨⟨before, rest⟩, ⟨before', back⟩, hlead, htakes⟩
    · exact absurd hgoes (hnone z)
    · obtain ⟨front, htext, hbefore⟩ := leads_iff.1 hlead
      have hpart : Leads ⟨before, rest⟩ ⟨before', back⟩ := by
        rw [← Marked.takes_ofPattern] at htakes
        exact (Marked.ofPattern p).onward_takes htakes
      obtain ⟨word, hrest, hbefore'⟩ := leads_iff.1 hpart
      dsimp only at htext hbefore hrest hbefore'
      rw [Option.or_none] at hbefore
      subst hrest hbefore hbefore'
      refine ⟨front, word, back, htext, ?_⟩
      rw [List.getLast?_append]
      exact htakes
  · intro htakes
    obtain ⟨front, word, back, htext, htakes⟩ := htakes
    refine Or.inr ⟨_, _, leads_iff.2 ⟨front, htext, ?_⟩, htakes⟩
    rw [Option.or_none]

end Pattern

/-- The standard engine tells, for every pattern that it compiles, the texts of which the pattern
    takes some part. -/
theorem PatternEngine.standard_compile {source : String} {isMatch : String → Bool}
    (h : PatternEngine.standard.compile source = .ok isMatch) :
    ∃ p, Pattern.read source = .ok p ∧ ∀ text, isMatch text = true ↔ p.TakesPartOf text := by
  unfold standard at h
  dsimp only at h
  split at h
  · rename_i p hread
    cases h
    exact ⟨p, hread, p.isFoundIn_iff⟩
  · cases h

end ManagedModel
