import Firebird.Jrd.Btr.Search

/-!
# Comparing keys through shared prefixes

A search that has come past a node knows only how far the key agreed with it.  This is enough to
compare the key with the next node, and with every later one in the order of the index.
-/

namespace Firebird

variable {descending retrieval : Bool}

/-! ## Shared prefixes -/

theorem computePrefix_le_left (left right : List UInt8) :
    computePrefix left right ≤ left.length := by
  induction left generalizing right with
  | nil => exact Nat.le_refl _
  | cons first left ih =>
      cases right with
      | nil => exact Nat.zero_le _
      | cons second right =>
          rw [computePrefix, List.length_cons]
          split
          · exact Nat.succ_le_succ (ih right)
          · exact Nat.zero_le _

theorem computePrefix_le_right (left right : List UInt8) :
    computePrefix left right ≤ right.length := by
  induction left generalizing right with
  | nil => exact Nat.zero_le _
  | cons first left ih =>
      cases right with
      | nil => exact Nat.zero_le _
      | cons second right =>
          rw [computePrefix, List.length_cons]
          split
          · exact Nat.succ_le_succ (ih right)
          · exact Nat.zero_le _

theorem take_computePrefix (left right : List UInt8) :
    left.take (computePrefix left right) = right.take (computePrefix left right) := by
  induction left generalizing right with
  | nil => rfl
  | cons first left ih =>
      cases right with
      | nil => rfl
      | cons second right =>
          rw [computePrefix]
          split
          · rename_i same
            rw [same, List.take_succ_cons, List.take_succ_cons, ih right]
          · rfl

theorem computePrefix_self (key : List UInt8) : computePrefix key key = key.length := by
  induction key with
  | nil => rfl
  | cons byte key ih => rw [computePrefix, if_pos rfl, ih, List.length_cons]

/-! ## The comparison of a key with a node -/

theorem Outcome.shift_eq_next {outcome : Outcome} {start moved : Nat} :
    outcome.shift start = .next moved ↔ ∃ rest, outcome = .next rest ∧ moved = start + rest := by
  cases outcome with
  | exact => simp [Outcome.shift]
  | stop => simp [Outcome.shift]
  | next rest => simp [Outcome.shift, eq_comm]

theorem Outcome.shift_eq_exact {outcome : Outcome} {start : Nat} :
    outcome.shift start = .exact ↔ outcome = .exact := by
  cases outcome with
  | exact => simp [Outcome.shift]
  | stop => simp [Outcome.shift]
  | next rest => simp [Outcome.shift]

theorem compareNode_cons (byte : UInt8) (key data : List UInt8) :
    compareNode descending retrieval (byte :: key) (byte :: data) =
      (compareNode descending retrieval key data).shift 1 := by
  rw [compareNode, if_neg (lt_irrefl byte), if_neg (lt_irrefl byte)]

theorem compareNode_append (start key data : List UInt8) :
    compareNode descending retrieval (start ++ key) (start ++ data) =
      (compareNode descending retrieval key data).shift start.length := by
  induction start with
  | nil =>
      cases outcome : compareNode descending retrieval key data with
      | exact => exact outcome
      | stop => exact outcome
      | next moved => simp [Outcome.shift, outcome]
  | cons byte start ih =>
      rw [List.cons_append, List.cons_append, compareNode_cons, ih]
      cases compareNode descending retrieval key data with
      | exact => rfl
      | stop => rfl
      | next moved =>
          rw [Outcome.shift, Outcome.shift, Outcome.shift, List.length_cons]
          congr 1
          omega

theorem compareNode_drop {start : Nat} {key data : List UInt8}
    (agree : key.take start = data.take start) (inside : start ≤ key.length) :
    compareNode descending retrieval key data =
      (compareNode descending retrieval (key.drop start) (data.drop start)).shift start := by
  have cut := @compareNode_append descending retrieval (key.take start) (key.drop start)
    (data.drop start)
  rw [List.take_append_drop, List.length_take_of_le inside] at cut
  rw [← cut, agree, List.take_append_drop]

theorem compareNode_exact {key data : List UInt8} :
    compareNode descending retrieval key data = .exact ↔ key = data := by
  induction key generalizing data with
  | nil =>
      cases data with
      | nil => simp [compareNode]
      | cons second data =>
          simp only [compareNode]
          split
          · simp
          · simp
  | cons first key ih =>
      cases data with
      | nil =>
          simp only [compareNode]
          split
          · simp
          · simp
      | cons second data =>
          rw [compareNode]
          rcases lt_trichotomy first second with less | same | more
          · rw [if_neg less.not_gt, if_pos less]
            simp [less.ne]
          · rw [if_neg same.not_gt, if_neg same.not_lt, Outcome.shift_eq_exact, ih, same]
            simp
          · rw [if_pos more]
            simp [more.ne']

theorem compareNode_next {key data : List UInt8} {moved : Nat}
    (passes : compareNode descending retrieval key data = .next moved) :
    moved = computePrefix data key := by
  induction key generalizing data moved with
  | nil =>
      cases data with
      | nil => cases passes
      | cons second data =>
          rw [compareNode] at passes
          split at passes
          · exact (Outcome.next.inj passes).symm
          · cases passes
  | cons first key ih =>
      cases data with
      | nil =>
          rw [compareNode] at passes
          split at passes
          · cases passes
          · exact (Outcome.next.inj passes).symm
      | cons second data =>
          rw [compareNode] at passes
          rw [computePrefix]
          rcases lt_trichotomy first second with less | same | more
          · rw [if_neg less.not_gt, if_pos less] at passes
            cases passes
          · rw [if_neg same.not_gt, if_neg same.not_lt] at passes
            obtain ⟨rest, done, rfl⟩ := Outcome.shift_eq_next.mp passes
            rw [if_pos same.symm, ← ih done, Nat.add_comm]
          · rw [if_pos more] at passes
            rw [if_neg more.ne]
            exact (Outcome.next.inj passes).symm

theorem compareNode_inside {key data : List UInt8} {moved : Nat}
    (passes : compareNode descending retrieval key data = .next moved) : moved ≤ key.length := by
  rw [compareNode_next passes]
  exact computePrefix_le_right _ _

theorem compareNode_agree {key data : List UInt8} {moved : Nat}
    (passes : compareNode descending retrieval key data = .next moved) :
    key.take moved = data.take moved := by
  rw [compareNode_next passes]
  exact (take_computePrefix data key).symm

/-- What comes before a key that the search passes is passed as well. -/
theorem compareNode_before {left right key : List UInt8} {moved : Nat}
    (ordered : KeyLe descending left right)
    (passes : compareNode descending retrieval key right = .next moved) :
    compareNode descending retrieval key left = .next (min (computePrefix left right) moved) := by
  induction left generalizing right key moved with
  | nil =>
      cases right with
      | nil =>
          have origin := compareNode_next passes
          rw [passes, origin]
          rfl
      | cons second right =>
          have ascending : descending = false := ordered
          subst ascending
          cases key with
          | nil => simp [compareNode] at passes
          | cons byte key => simp [compareNode, computePrefix]
  | cons first left ih =>
      cases right with
      | nil =>
          have turned : descending = true := ordered
          subst turned
          cases key with
          | nil => cases passes
          | cons byte key => simp [compareNode] at passes
      | cons second right =>
          cases key with
          | nil =>
              rw [compareNode] at passes ⊢
              split at passes
              · rename_i allowed
                rw [if_pos allowed, ← Outcome.next.inj passes, Nat.min_zero]
              · cases passes
          | cons byte key =>
              rw [compareNode] at passes
              rcases ordered with less | ⟨same, ordered⟩
              · have above : first < byte := by
                  rcases lt_trichotomy second byte with low | equal | high
                  · exact less.trans low
                  · exact equal ▸ less
                  · rw [if_neg high.not_gt, if_pos high] at passes
                    cases passes
                rw [compareNode, if_pos above, computePrefix, if_neg less.ne, Nat.zero_min]
              · subst same
                rw [compareNode, computePrefix, if_pos rfl]
                by_cases above : first < byte
                · rw [if_pos above] at passes ⊢
                  rw [← Outcome.next.inj passes, Nat.min_zero]
                · rw [if_neg above] at passes ⊢
                  split at passes
                  · cases passes
                  · obtain ⟨rest, done, rfl⟩ := Outcome.shift_eq_next.mp passes
                    rename_i below
                    rw [if_neg below, ih ordered done, Outcome.shift]
                    congr 1
                    omega

/-- A key that agrees with a passed one beyond the place of the first difference is passed. -/
theorem compareNode_longer {left right key : List UInt8} {moved shared : Nat}
    (passes : compareNode descending retrieval key left = .next moved) (beyond : moved < shared)
    (inside : shared ≤ left.length) (agree : left.take shared = right.take shared) :
    compareNode descending retrieval key right = .next moved := by
  induction left generalizing right key moved shared with
  | nil => rw [List.length_nil] at inside; omega
  | cons first left ih =>
      cases shared with
      | zero => omega
      | succ shared =>
          cases right with
          | nil => cases agree
          | cons second right =>
              rw [List.take_succ_cons, List.take_succ_cons] at agree
              obtain ⟨rfl, agree_tail⟩ := List.cons.inj agree
              cases key with
              | nil => exact passes
              | cons byte key =>
                  rw [compareNode] at passes ⊢
                  by_cases above : first < byte
                  · rw [if_pos above] at passes ⊢
                    exact passes
                  · rw [if_neg above] at passes ⊢
                    split at passes
                    · cases passes
                    · obtain ⟨rest, done, rfl⟩ := Outcome.shift_eq_next.mp passes
                      rename_i below
                      rw [if_neg below, ih done (by omega)
                        (Nat.le_of_succ_le_succ inside) agree_tail]
                      rfl

/-- Without a retrieval, a key in order before the searched one is passed or equal to it. -/
theorem compareNode_le {key data : List UInt8} (ordered : KeyLe descending data key) :
    data = key ∨ ∃ moved, compareNode descending false key data = .next moved := by
  induction data generalizing key with
  | nil =>
      cases key with
      | nil => exact .inl rfl
      | cons byte key =>
          have ascending : descending = false := ordered
          subst ascending
          exact .inr ⟨0, rfl⟩
  | cons first data ih =>
      cases key with
      | nil =>
          have turned : descending = true := ordered
          subst turned
          exact .inr ⟨0, rfl⟩
      | cons byte key =>
          rcases ordered with less | ⟨rfl, ordered⟩
          · exact .inr ⟨0, by rw [compareNode, if_pos less]⟩
          · rcases ih ordered with rfl | ⟨moved, passes⟩
            · exact .inl rfl
            · exact .inr ⟨1 + moved, by rw [compareNode_cons, passes]; rfl⟩

/-! ## The order of an index -/

theorem KeyLe.refl (key : List UInt8) : KeyLe descending key key := by
  induction key with
  | nil => trivial
  | cons byte key ih => exact .inr ⟨rfl, ih⟩

theorem KeyLe.trans {left middle right : List UInt8} (first : KeyLe descending left middle)
    (second : KeyLe descending middle right) : KeyLe descending left right := by
  induction left generalizing middle right with
  | nil =>
      cases middle with
      | nil => exact second
      | cons byte middle =>
          have ascending : descending = false := first
          subst ascending
          cases right with
          | nil => trivial
          | cons last right => rfl
  | cons byte left ih =>
      cases middle with
      | nil =>
          have turned : descending = true := first
          subst turned
          cases right with
          | nil => rfl
          | cons last right => cases second
      | cons between middle =>
          cases right with
          | nil => exact second
          | cons last right =>
              rcases first with less | ⟨rfl, first⟩
              · rcases second with more | ⟨rfl, -⟩
                · exact .inl (less.trans more)
                · exact .inl less
              · rcases second with more | ⟨rfl, second⟩
                · exact .inl more
                · exact .inr ⟨rfl, ih first second⟩

theorem KeyLe.antisymm {left right : List UInt8} (up : KeyLe descending left right)
    (down : KeyLe descending right left) : left = right := by
  induction left generalizing right with
  | nil =>
      cases right with
      | nil => rfl
      | cons byte right =>
          have ascending : descending = false := up
          have turned : descending = true := down
          exact absurd (ascending.symm.trans turned) Bool.false_ne_true
  | cons first left ih =>
      cases right with
      | nil =>
          have turned : descending = true := up
          have ascending : descending = false := down
          exact absurd (ascending.symm.trans turned) Bool.false_ne_true
      | cons second right =>
          rcases up with less | ⟨rfl, up⟩
          · rcases down with more | ⟨same, -⟩
            · exact absurd more less.not_gt
            · exact absurd same less.ne'
          · rcases down with more | ⟨-, down⟩
            · exact absurd more (lt_irrefl _)
            · rw [ih up down]

end Firebird
