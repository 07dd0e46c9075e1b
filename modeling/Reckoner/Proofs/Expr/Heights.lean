import Mathlib.Algebra.BigOperators.Group.List.Basic
import Mathlib.Algebra.Order.Ring.Nat
import Reckoner.Proofs.Evaluation
import Reckoner.Proofs.Expr.Soundness

/-!
# The height of a tree, found in three ways

The height of a tree is a recursion on the tree. It is also found by visiting the subtrees one after
another with a list of those still to be visited, and it is counted by the parser while the tree is
built. A visit takes any pending subtree, marks its level and leaves its children pending, in any
order among the others. What a visit keeps is the bottom of what is left: the level below the
deepest one that was found or that a pending subtree reaches. So each order of visits takes as many
of them as the tree has nodes, and finds its height.
-/
namespace Reckoner

namespace Expr

theorem height_eq_children (e : Expr) : e.height = greatestHeight e.children + 1 := by
  cases e <;> simp [height, children, greatestHeight]

theorem greatestHeight_le_iff {es : List Expr} {n : Nat} :
    greatestHeight es ≤ n ↔ ∀ e ∈ es, e.height ≤ n := by
  induction es with
  | nil => simp [greatestHeight]
  | cons e es ih => simp only [greatestHeight, Nat.max_le, ih, List.forall_mem_cons]

theorem totalSize_eq_sum (es : List Expr) : totalSize es = (es.map size).sum := by
  induction es with
  | nil => rfl
  | cons e es ih => simp [totalSize, ih]

/-- The deepest level that was found, and the subtrees that are still to be visited. -/
structure Survey where
  found : Nat
  pending : List Pending

/-- The level below the deepest one of a pending subtree. -/
def Pending.bottom (p : Pending) : Nat := p.level + p.expr.height

theorem Pending.bottom_le_iff {p : Pending} {n : Nat} :
    p.bottom ≤ n ↔ p.level + 1 ≤ n ∧ ∀ q ∈ p.below, q.bottom ≤ n := by
  have hchildren : (∀ q ∈ p.below, q.bottom ≤ n) ↔
      ∀ child ∈ p.expr.children, p.level + 1 + child.height ≤ n := by
    simp [below, bottom]
  rw [hchildren, bottom, height_eq_children]
  constructor
  · intro h
    refine ⟨by omega, fun child hchild => ?_⟩
    have := height_le_greatestHeight hchild
    omega
  · rintro ⟨hlevel, hchild⟩
    have : greatestHeight p.expr.children ≤ n - (p.level + 1) :=
      greatestHeight_le_iff.mpr fun child hmem => by
        have := hchild child hmem
        omega
    omega

namespace Survey

/-- Nothing is found yet, and the whole tree is to be visited at the first level. -/
def start (t : Expr) : Survey := ⟨0, [⟨t, 1⟩]⟩

/-- The nodes that are still to be visited. -/
def remaining (s : Survey) : Nat := totalSize (s.pending.map Pending.expr)

/-- The level below all that were found and all that pending subtrees reach. -/
def bottom (s : Survey) : Nat := (s.pending.map Pending.bottom).foldr max (s.found + 1)

theorem bottom_le_iff {s : Survey} {n : Nat} :
    s.bottom ≤ n ↔ s.found + 1 ≤ n ∧ ∀ p ∈ s.pending, p.bottom ≤ n := by
  obtain ⟨found, pending⟩ := s
  induction pending with
  | nil => simp [bottom]
  | cons p pending ih =>
    simp only [bottom, List.map_cons, List.foldr_cons, Nat.max_le, List.forall_mem_cons] at ih ⊢
    rw [ih]
    exact and_left_comm

/-- A visit to any of the pending subtrees. Its children may go anywhere among the others. -/
inductive Visit : Survey → Survey → Prop where
  | visit {found before p after others} (h : others.Perm (before ++ p.below ++ after)) :
      Visit ⟨found, before ++ p :: after⟩ ⟨max found p.level, others⟩

/-- Any number of visits, one after another. -/
inductive Visits : Nat → Survey → Survey → Prop where
  | none (s : Survey) : Visits 0 s s
  | next {n s s' s''} (first : Visit s s') (later : Visits n s' s'') : Visits (n + 1) s s''

variable {n : Nat} {s s' : Survey}

/-- A visit is to one node. -/
theorem Visit.remaining_eq (h : Visit s s') : s.remaining = s'.remaining + 1 := by
  obtain ⟨hothers⟩ := h
  have hsum := ((hothers.map Pending.expr).map size).sum_eq
  simp only [remaining, totalSize_eq_sum, hsum, List.map_append, List.map_cons, List.sum_append,
    List.sum_cons, Pending.map_expr_below, size_eq_totalSize_children]
  omega

/-- A visit keeps the bottom. -/
theorem Visit.bottom_eq (h : Visit s s') : s'.bottom = s.bottom := by
  obtain @⟨found, before, p, after, others, hothers⟩ := h
  refine eq_of_forall_ge_iff fun n => ?_
  have hmax : max found p.level + 1 ≤ n ↔ found + 1 ≤ n ∧ p.level + 1 ≤ n := by omega
  simp only [bottom_le_iff, hothers.mem_iff, List.forall_mem_append, List.forall_mem_cons,
    p.bottom_le_iff, hmax]
  tauto

theorem Visits.remaining_eq (h : Visits n s s') : s.remaining = s'.remaining + n := by
  induction h with
  | none s => rfl
  | next first _ ih => rw [first.remaining_eq, ih, Nat.add_assoc]

theorem Visits.bottom_eq (h : Visits n s s') : s'.bottom = s.bottom := by
  induction h with
  | none s => rfl
  | next first _ ih => rw [ih, first.bottom_eq]

theorem remaining_eq_zero_iff : s.remaining = 0 ↔ s.pending = [] := by
  obtain ⟨found, pending⟩ := s
  cases pending with
  | nil => simp [remaining, totalSize]
  | cons p pending => simp [remaining, totalSize, size_eq_totalSize_children p.expr]

theorem remaining_start (t : Expr) : (start t).remaining = t.size := by
  simp [start, remaining, totalSize]

/-- When nothing is pending any more, the height is found. -/
theorem Visits.found_eq_height {t : Expr} (h : Visits n (start t) s) (hdone : s.pending = []) :
    s.found = t.height := by
  have hbottom := h.bottom_eq
  obtain ⟨found, pending⟩ := s
  obtain rfl : pending = [] := hdone
  have hheight : (start t).bottom = max (1 + t.height) 1 := rfl
  rw [hheight] at hbottom
  have hfound : (Survey.mk found []).bottom = found + 1 := rfl
  simp only at hfound ⊢
  omega

/-- While something is pending, some visit is next. -/
theorem exists_visit (h : s.pending ≠ []) : ∃ s', Visit s s' := by
  obtain ⟨found, pending⟩ := s
  obtain ⟨p, rest, rfl⟩ := List.exists_cons_of_ne_nil h
  exact ⟨_, @Visit.visit found [] p rest _ (List.Perm.refl (p.below ++ rest))⟩

end Survey

/-- Visiting the last pending subtree first is one order of visits. -/
theorem visits_deepest (found : Nat) (pending : List Pending) :
    ∃ n, Survey.Visits n ⟨found, pending⟩ ⟨deepest found pending, []⟩ := by
  induction found, pending using deepest.induct with
  | case1 found =>
    rw [deepest]
    exact ⟨0, .none _⟩
  | case2 found p rest ih =>
    obtain ⟨n, hlater⟩ := ih
    rw [deepest]
    have hreversed := (List.reverse_perm p.below).append_right rest
    exact ⟨n + 1, .next (@Survey.Visit.visit found [] p rest _ hreversed) hlater⟩

theorem depth_eq_height (t : Expr) : t.depth = t.height := by
  obtain ⟨n, h⟩ := visits_deepest 0 [⟨t, 1⟩]
  exact Survey.Visits.found_eq_height (t := t) h rfl

end Expr

namespace Level

open Grammar (Sound)

/-- The productions that read one tree with this many levels open around it, from an expression down
to an atom. -/
def productions (finish opened : Nat) : List Production :=
  let inner := withRoom finish (nestingLimit - opened)
  let level := above finish inner
  [level.expression, Production.chain Operator.multiplicative? level.exponent, level.exponent,
    level.operand, Production.atom finish inner.expression]

/-- The arguments of a call that has this many levels open around it. -/
def arguments (finish opened : Nat) (tokens : List Token) :
    Except Refusal (Parsed (List Measured) tokens) :=
  Production.arguments finish (withRoom finish (nestingLimit - opened)).expression tokens

/-- The height that was counted is that of the tree, and is within the limit. -/
def Counted (m : Measured) : Prop := m.height = m.expr.depth ∧ m.height ≤ nestingLimit

theorem counted_of_sound {s : Grammar.Symbol} {k : Nat} {p : Production} (h : Sound s k p)
    {tokens : List Token} {read : Parsed Measured tokens} (hread : p tokens = .ok read) :
    Counted read.value := by
  have hrun : p.run tokens = .ok read.pair := by rw [Production.run, hread, Parsed.view_ok]
  obtain ⟨ps, -, -, hfits, hheight⟩ := h _ _ _ hrun
  rw [Counted, Expr.depth_eq_height, hheight]
  exact ⟨rfl, hfits.2⟩

/-- What a production reads is counted with its height, on whatever level it starts: beyond the
limit no level may be opened, just as at the limit. -/
theorem counted_of_productions {finish opened : Nat} {p : Production}
    (hp : p ∈ productions finish opened) {tokens : List Token} {read : Parsed Measured tokens}
    (hread : p tokens = .ok read) : Counted read.value := by
  generalize hroom : nestingLimit - opened = room at hp
  have hinner := sound_withRoom finish room (nestingLimit - room + 1) (by omega)
  obtain ⟨hexpression, hexponent, hoperand⟩ := hinner
  have hatom : Sound .atom (nestingLimit - room) (.atom finish (withRoom finish room).expression) :=
    Production.sound_atom hexpression (Nat.sub_le _ _)
  have hsigned := Production.sound_signed hoperand hatom (Nat.sub_le _ _)
  have hpower := Production.sound_power hexponent hsigned
  have hterm := sound_multiplicative hpower
  simp only [productions, hroom, List.mem_cons, List.not_mem_nil, or_false] at hp
  rcases hp with rfl | rfl | rfl | rfl | rfl
  · exact counted_of_sound (sound_additive hterm) hread
  · exact counted_of_sound hterm hread
  · exact counted_of_sound hpower hread
  · exact counted_of_sound hsigned hread
  · exact counted_of_sound hatom hread

theorem counted_of_arguments {finish opened : Nat} {tokens : List Token}
    {read : Parsed (List Measured) tokens} (hread : arguments finish opened tokens = .ok read) :
    ∀ value ∈ read.value, Counted value := by
  intro value hvalue
  have hexpression := (sound_withRoom finish (nestingLimit - opened)
    (nestingLimit - (nestingLimit - opened) + 1) (by omega)).1
  have hview : Parsed.view (arguments finish opened tokens) = .ok read.pair := by
    rw [hread, Parsed.view_ok]
  obtain ⟨phrases, last, -, -, hall, hvalues, hheights⟩ :=
    Production.readsCall_of_arguments hexpression hview
  have hmem : value.expr ∈ phrases.map Prod.snd := hvalues ▸ List.mem_map_of_mem hvalue
  obtain ⟨phrase, hphrase, hexpr⟩ := List.mem_map.mp hmem
  rw [Counted, Expr.depth_eq_height, hheights value hvalue, ← hexpr]
  exact ⟨rfl, (hall phrase hphrase).2.2⟩

end Level

theorem height_le_of_read {text : String} {reading : Reading} (h : read text = .ok reading) :
    reading.expr.height ≤ nestingLimit := by
  obtain ⟨ps, -, -, hfits⟩ := Expr.sentence_of_ofTokens (read_eq_ok h).2
  exact hfits.2

/-- The three heights agree. Whatever pending subtree is visited next, the visits of a tree end
after as many as it has nodes, and then its height is found; visiting the last one first is such an
order.
Each production that reads a tree, at every level, gives its height with it, and it is within the
limit; the same holds of the arguments of a call. A text is refused, or it is read as a tree within
the limit. This is the tree that is evaluated and the one that is shown, and the depth that is shown
is its height. -/
theorem heights_agree (t : Expr) (finish opened : Nat) (text : String) :
    (∀ n s, Expr.Survey.Visits n (.start t) s →
      n ≤ t.size ∧ (n = t.size ↔ s.pending = []) ∧
      (s.pending ≠ [] → ∃ s', Expr.Survey.Visit s s') ∧
      (s.pending = [] → s.found = t.height)) ∧
    t.depth = t.height ∧
    (∀ p ∈ Level.productions finish opened, ∀ tokens read, p tokens = .ok read →
      read.value.height = read.value.expr.depth ∧ read.value.height ≤ 200) ∧
    (∀ tokens read, Level.arguments finish opened tokens = .ok read →
      (∀ value ∈ read.value, value.height = value.expr.depth ∧ value.height ≤ 200) ∧
      ∀ function, Production.callHeight read.value =
        (Expr.call function (read.value.map Measured.expr)).depth) ∧
    (∀ refusal, read text = .error refusal →
      evaluate text = .error refusal ∧ evaluateTraced text = .error refusal) ∧
    ∀ reading, read text = .ok reading →
      reading.expr.height ≤ 200 ∧ evaluate text = reading.expr.evaluate ∧
      evaluateTraced text = reading.expr.evaluate.map fun value =>
        (value, ⟨Token.line reading.tokens, reading.expr.render, reading.expr.height⟩) := by
  refine ⟨fun n s h => ?_, t.depth_eq_height,
    fun p hp tokens read => Level.counted_of_productions hp, fun tokens read h => ?_,
    fun refusal h => ?_, fun reading h => ?_⟩
  · have hcount := h.remaining_eq
    have hdone := Expr.Survey.remaining_eq_zero_iff (s := s)
    rw [Expr.Survey.remaining_start] at hcount
    refine ⟨by omega, ?_, Expr.Survey.exists_visit, h.found_eq_height⟩
    rw [← hdone]
    omega
  · have hcounted := Level.counted_of_arguments h
    refine ⟨hcounted, fun function => ?_⟩
    rw [Expr.depth_eq_height]
    refine Production.callHeight_eq (fun value hvalue => ?_) function
    rw [(hcounted value hvalue).1, Expr.depth_eq_height]
  · rw [evaluate_eq, evaluateTraced_eq, h]
    exact ⟨rfl, rfl⟩
  · rw [evaluate_eq, evaluateTraced_eq, h]
    refine ⟨height_le_of_read h, rfl, ?_⟩
    rw [Except.bind, Reading.trace, Expr.depth_eq_height]
    cases reading.expr.evaluate <;> rfl

end Reckoner
