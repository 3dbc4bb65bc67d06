import Mathlib.Data.List.Basic
import Mathlib.Order.Basic

/-!
# Keyset pagination

The pages of a sorted list when each page is asked for with a cursor made of the
last row of the page before. The cursor may say less than the row: `beyond r x`
is what a query with the cursor of `r` says of `x`. The pages are exact if and
only if the cursor of each last row keeps that row out and lets the next one in.
-/

namespace Store.Keyset

variable {α : Type}

section

variable (beyond : α → α → Prop) [∀ r, DecidablePred (beyond r)] (l : List α) (n : Nat)

/-- The rows that a query with the cursor finds. -/
def matching : Option α → List α
  | none => l
  | some r => l.filter fun x => beyond r x

/-- Follows the cursors from page to page. `none` while there is no last page yet. -/
def follow : (fuel : Nat) → Option α → Option (List (List α))
  | 0, _ => none
  | fuel + 1, cursor =>
    let found := matching beyond l cursor
    let page := found.take n
    if n < found.length then (follow fuel page.getLast?).map (page :: ·) else some [page]

attribute [local simp] follow

/-- The cursor of `r` keeps `r` out and lets `s` in. -/
def Separates (r s : α) : Prop := ¬beyond r r ∧ beyond r s

/-- The cursor of the last row of every full page separates it from the next row. -/
def Separated : Prop :=
  ∀ k r s, l[k * n + n - 1]? = some r → l[k * n + n]? = some s → Separates beyond r s

end

variable {beyond : α → α → Prop} [∀ r, DecidablePred (beyond r)] {l : List α} {n : Nat}
  {lt : α → α → Prop}

/-- A row of a sorted list is among the first `n` if fewer than `n` rows are before it. -/
theorem mem_take_iff [DecidableRel lt] [Std.Irrefl lt] [Std.Asymm lt] (hl : l.Pairwise lt) {x : α} :
    x ∈ l.take n ↔ x ∈ l ∧ l.countP (fun y => lt y x) < n := by
  induction hl generalizing n with
  | nil => simp
  | @cons a l ha _ ih =>
    cases n with
    | zero => simp
    | succ n =>
      rw [List.take_succ_cons, List.mem_cons, List.mem_cons, ih, List.countP_cons]
      have hnone : ∀ y, lt a y → ¬lt y a := fun y h => Std.Asymm.asymm a y h
      by_cases hx : x = a
      · subst hx
        have hzero : l.countP (fun y => lt y x) = 0 := by
          simp only [List.countP_eq_zero, decide_eq_true_eq]
          exact fun y hy => hnone y (ha y hy)
        simp [hzero, Std.Irrefl.irrefl x]
      · simp only [hx, false_or]
        refine and_congr_right fun hmem => ?_
        simp [ha x hmem]

/-- After a row that is kept out, what is let in is a tail of the list. -/
theorem filter_of_separates (hl : l.Pairwise lt)
    (hup : ∀ r x y, lt x y → beyond r x → beyond r y) {pre post : List α} {r s : α}
    (h : l = pre ++ r :: s :: post) (hs : Separates beyond r s) :
    (l.filter fun x => beyond r x) = s :: post := by
  subst h
  have hpre := (List.pairwise_append.mp hl).2.2
  have htail := (List.pairwise_append.mp hl).2.1
  rw [List.pairwise_cons, List.pairwise_cons] at htail
  have hout : pre.filter (fun x => beyond r x) = [] := by
    simp only [List.filter_eq_nil_iff, decide_eq_true_eq]
    intro x hx hbeyond
    exact hs.1 (hup r x r (hpre x hx r (.head _)) hbeyond)
  have hin : (s :: post).filter (fun x => beyond r x) = s :: post := by
    simp only [List.filter_eq_self, decide_eq_true_eq]
    intro x hx
    rcases List.mem_cons.mp hx with rfl | hx
    · exact hs.2
    · exact hup r s x (htail.2.1 x hx) hs.2
  rw [List.filter_append, hout, List.filter_cons_of_neg (by simpa using hs.1), hin, List.nil_append]

/-- A page that starts with the row after `r` was asked for with a cursor that separates. -/
theorem separates_of_filter [Std.Asymm lt] (hl : l.Pairwise lt) {pre post rest : List α} {r s : α}
    (h : l = pre ++ r :: s :: post) (hf : (l.filter fun x => beyond r x) = s :: rest) :
    Separates beyond r s := by
  have hpair : (s :: rest).Pairwise lt := hf ▸ hl.sublist List.filter_sublist
  have hmem : ∀ x ∈ l, beyond r x → x = s ∨ lt s x := by
    intro x hx hbeyond
    have hx' : x ∈ s :: rest := by
      rw [← hf]
      simpa using ⟨hx, hbeyond⟩
    rcases List.mem_cons.mp hx' with hx' | hx'
    · exact .inl hx'
    · exact .inr ((List.pairwise_cons.mp hpair).1 x hx')
  have hrs : lt r s := by
    subst h
    have := (List.pairwise_append.mp hl).2.1
    exact (List.pairwise_cons.mp this).1 s (.head _)
  constructor
  · intro hbeyond
    rcases hmem r (by simp [h]) hbeyond with heq | hlt
    · subst heq
      exact Std.Asymm.asymm _ _ hrs hrs
    · exact Std.Asymm.asymm _ _ hrs hlt
  · have : s ∈ l.filter fun x => beyond r x := by
      rw [hf]
      exact .head _
    simpa using (List.mem_filter.mp this).2

/-- Where page `k` ends and the next one begins. -/
theorem split_at_page {m : Nat} (hn : 0 < n) (h : m + n < l.length) :
    ∃ r s, l[m + n - 1]? = some r ∧ l[m + n]? = some s ∧
      l = l.take (m + n - 1) ++ r :: s :: l.drop (m + n + 1) ∧
      ((l.drop m).take n).getLast? = some r ∧ l.drop (m + n) = s :: l.drop (m + n + 1) := by
  have hr : m + n - 1 < l.length := by omega
  refine ⟨l[m + n - 1], l[m + n], by simp [hr], by simp [h], ?_, ?_, ?_⟩
  · have hdrop : l.drop (m + n - 1) = l[m + n - 1] :: l.drop (m + n) := by
      rw [List.drop_eq_getElem_cons hr]
      congr 2
      omega
    rw [← List.drop_eq_getElem_cons h, ← hdrop, List.take_append_drop]
  · rw [List.getLast?_eq_getElem?, List.length_take, List.length_drop, List.getElem?_take,
      List.getElem?_drop]
    have hmin : min n (l.length - m) = n := by omega
    rw [hmin, if_pos (by omega)]
    have hidx : m + (n - 1) = m + n - 1 := by omega
    rw [hidx]
    simp [hr]
  · exact List.drop_eq_getElem_cons h

/-- The pages begin with the first row that the query finds. -/
theorem head_of_follow (hn : 0 < n) {fuel : Nat} {cursor : Option α} {ps : List (List α)}
    (h : follow beyond l n fuel cursor = some ps) :
    ps.flatten.head? = (matching beyond l cursor).head? := by
  have hpage : ∀ (found : List α) (rest : List (List α)), (rest = [] ∨ n < found.length) →
      (found.take n :: rest).flatten.head? = found.head? := by
    intro found rest hrest
    cases found with
    | nil =>
      rcases hrest with rfl | hrest
      · simp
      · simp at hrest
    | cons a found =>
      obtain ⟨n, rfl⟩ := Nat.exists_eq_succ_of_ne_zero (Nat.ne_of_gt hn)
      simp
  cases fuel with
  | zero => simp [follow] at h
  | succ fuel =>
    unfold follow at h
    simp only at h
    split at h
    · obtain ⟨rest, -, rfl⟩ := Option.map_eq_some_iff.mp h
      exact hpage _ rest (.inr ‹_›)
    · obtain rfl := Option.some.inj h
      exact hpage _ [] (.inl rfl)

/-- From a cursor that has found what is left from place `m` on. -/
theorem follow_from [Std.Asymm lt] (hl : l.Pairwise lt)
    (hup : ∀ r x y, lt x y → beyond r x → beyond r y) (hn : 0 < n) (m : Nat) {cursor : Option α}
    (hcursor : matching beyond l cursor = l.drop m) :
    (∃ fuel ps, follow beyond l n fuel cursor = some ps ∧ ps.flatten = l.drop m) ↔
      ∀ k r s, l[m + k * n + n - 1]? = some r → l[m + k * n + n]? = some s →
        Separates beyond r s := by
  induction hk : l.length - m using Nat.strongRecOn generalizing m cursor with
  | _ d ih =>
    by_cases hlast : m + n < l.length
    · obtain ⟨r, s, hr, hs, hsplit, hpage, hdrop⟩ := split_at_page hn hlast
      have hfound : n < (l.drop m).length := by
        rw [List.length_drop]
        omega
      have hstep : ∀ fuel, follow beyond l n (fuel + 1) cursor =
          (follow beyond l n fuel (some r)).map ((l.drop m).take n :: ·) := by
        intro fuel
        rw [follow, hcursor, if_pos hfound, hpage]
      have hrest : ∀ ps : List (List α),
          ((l.drop m).take n :: ps).flatten = l.drop m ↔ ps.flatten = l.drop (m + n) := by
        intro ps
        have hback := List.take_append_drop n (l.drop m)
        rw [List.drop_drop] at hback
        constructor
        · intro h
          rw [List.flatten_cons] at h
          exact List.append_cancel_left (h.trans hback.symm)
        · intro h
          rw [List.flatten_cons, h, hback]
      have hnext : Separates beyond r s → matching beyond l (some r) = l.drop (m + n) := by
        intro hsep
        rw [hdrop]
        exact filter_of_separates hl hup hsplit hsep
      constructor
      · rintro ⟨fuel, ps, hps, hflat⟩
        cases fuel with
        | zero => simp [follow] at hps
        | succ fuel =>
          rw [hstep] at hps
          obtain ⟨rest, hfollow, rfl⟩ := Option.map_eq_some_iff.mp hps
          rw [hrest] at hflat
          have hsep : Separates beyond r s := by
            have hhead := head_of_follow hn hfollow
            rw [hflat, hdrop, List.head?_cons] at hhead
            obtain ⟨tail, htail⟩ := List.head?_eq_some_iff.mp hhead.symm
            exact separates_of_filter hl hsplit htail
          have hall := (ih _ (by omega) (m + n) (hnext hsep) rfl).mp ⟨fuel, rest, hfollow, hflat⟩
          intro k r' s' hr' hs'
          cases k with
          | zero =>
            rw [Nat.zero_mul, Nat.add_zero] at hr' hs'
            rw [hr] at hr'
            rw [hs] at hs'
            cases hr'
            cases hs'
            exact hsep
          | succ k =>
            refine hall k r' s' ?_ ?_
            · rw [← hr', Nat.succ_mul]
              congr 1
              omega
            · rw [← hs', Nat.succ_mul]
              congr 1
              omega
      · intro hall
        have hsep := hall 0 r s (by simpa using hr) (by simpa using hs)
        obtain ⟨fuel, rest, hfollow, hflat⟩ := (ih _ (by omega) (m + n) (hnext hsep) rfl).mpr (by
          intro k r' s' hr' hs'
          refine hall (k + 1) r' s' ?_ ?_
          · rw [← hr', Nat.succ_mul]
            congr 1
            omega
          · rw [← hs', Nat.succ_mul]
            congr 1
            omega)
        refine ⟨fuel + 1, _, ?_, (hrest rest).mpr hflat⟩
        rw [hstep, hfollow]
        rfl
    · have hshort : ¬n < (l.drop m).length := by
        rw [List.length_drop]
        omega
      constructor
      · intro _ k r s _ hs
        obtain ⟨hlt, -⟩ := List.getElem?_eq_some_iff.mp hs
        omega
      · intro _
        refine ⟨1, [(l.drop m).take n], ?_, ?_⟩
        · rw [follow, hcursor, if_neg hshort]
        · rw [List.flatten_singleton, List.take_of_length_le (by omega)]

/-- The pages end, and are the rows of the list, each once and in order, if and only if every
cursor separates the rows where a page ends. -/
theorem follow_exact_iff [Std.Asymm lt] (hl : l.Pairwise lt)
    (hup : ∀ r x y, lt x y → beyond r x → beyond r y) (hn : 0 < n) :
    (∃ fuel ps, follow beyond l n fuel none = some ps ∧ ps.flatten = l) ↔ Separated beyond l n := by
  have hnone : matching beyond l none = l.drop 0 := rfl
  have h := follow_from hl hup hn 0 hnone
  simpa [Separated] using h

end Store.Keyset
