import LmsBackend.Text.Patterns

/-!
# What a replacement keeps

A text is cut into the symbols that a pattern leaves alone, and holes where it matches. A replacement
fills the holes. An automaton that stands still at each hole reads what is kept, whatever fills them.
-/

namespace Text

inductive Slot (α : Type) where
  | kept (a : α)
  /-- A match, with what it captures. -/
  | hole (caps : List (List α))
  deriving DecidableEq

variable {α σ : Type}

def Slot.fill (f : List (List α) → List α) : Slot α → List α
  | kept a => [a]
  | hole caps => f caps

def Slot.kept? : Slot α → Option α
  | kept a => some a
  | hole _ => none

section

variable [DecidableEq α]

/-- The next `skip` symbols are in a match that is already cut out. -/
def cut (ps : List (Piece α)) : (skip : Nat) → List α → List (Slot α)
  | skip + 1, _ :: s => cut ps skip s
  | 0, a :: s =>
    match matchAt ps (a :: s) with
    | none => .kept a :: cut ps 0 s
    | some (caps, rest) =>
      if rest.length < (a :: s).length then .hole caps :: cut ps (s.length - rest.length) s
      else .hole caps :: .kept a :: cut ps 0 s
  | _, [] =>
    match matchAt ps [] with
    | none => []
    | some (caps, _) => [.hole caps]

def parts (ps : List (Piece α)) (s : List α) : List (Slot α) := cut ps 0 s

variable {ps : List (Piece α)} {f : List (List α) → List α}

theorem cut_drop {skip : Nat} {s : List α} (h : skip ≤ s.length) :
    cut ps skip s = cut ps 0 (s.drop skip) := by
  induction skip generalizing s with
  | zero => rfl
  | succ skip ih =>
    rcases s with _ | ⟨a, s⟩
    · simp at h
    · exact ih (Nat.le_of_succ_le_succ h)

omit [DecidableEq α] in
theorem longest_suffix {β : Type} {cls : α → Bool} {k : List α → Option β} {s w : List α} {b : β}
    (h : longest cls k s = some (w, b)) : ∃ t, t <:+ s ∧ k t = some b := by
  induction s generalizing w with
  | nil => cases h
  | cons c s ih =>
    unfold longest at h
    split at h
    · split at h
      · rename_i hrest
        cases h
        obtain ⟨t, ht, hk⟩ := ih hrest
        exact ⟨t, ht.trans (List.suffix_cons c s), hk⟩
      · obtain ⟨b', hk, heq⟩ := Option.map_eq_some_iff.mp h
        cases heq
        exact ⟨s, List.suffix_cons c s, hk⟩
    · cases h

omit [DecidableEq α] in
theorem shortest_suffix {β : Type} {k : List α → Option β} {s w : List α} {b : β}
    (h : shortest k s = some (w, b)) : ∃ t, t <:+ s ∧ k t = some b := by
  induction s generalizing w with
  | nil =>
    obtain ⟨b', hk, heq⟩ := Option.map_eq_some_iff.mp h
    cases heq
    exact ⟨[], List.suffix_refl _, hk⟩
  | cons c s ih =>
    unfold shortest at h
    split at h
    · rename_i hk
      cases h
      exact ⟨c :: s, List.suffix_refl _, hk⟩
    · obtain ⟨⟨w', b'⟩, hrest, heq⟩ := Option.map_eq_some_iff.mp h
      cases heq
      obtain ⟨t, ht, hk⟩ := ih hrest
      exact ⟨t, ht.trans (List.suffix_cons c s), hk⟩

theorem matchAt_suffix {s rest : List α} {caps : List (List α)}
    (h : matchAt ps s = some (caps, rest)) : rest <:+ s := by
  induction ps generalizing s caps with
  | nil =>
    cases h
    exact List.suffix_refl _
  | cons p ps ih =>
    rcases p with l | ⟨captured, cls⟩ | _
    · unfold matchAt at h
      split at h
      · exact (ih h).trans (List.drop_suffix _ _)
      · cases h
    · obtain ⟨⟨w, caps', rest'⟩, hlongest, heq⟩ := Option.map_eq_some_iff.mp h
      cases heq
      obtain ⟨t, ht, hk⟩ := longest_suffix hlongest
      exact (ih hk).trans ht
    · obtain ⟨⟨w, caps', rest'⟩, hshortest, heq⟩ := Option.map_eq_some_iff.mp h
      cases heq
      obtain ⟨t, ht, hk⟩ := shortest_suffix hshortest
      exact (ih hk).trans ht

theorem parts_none {a : α} {s : List α} (h : matchAt ps (a :: s) = none) :
    parts ps (a :: s) = .kept a :: parts ps s := by
  unfold parts
  rw [cut, h]

theorem parts_some {a : α} {s rest : List α} {caps : List (List α)}
    (h : matchAt ps (a :: s) = some (caps, rest)) (hlt : rest.length < (a :: s).length) :
    parts ps (a :: s) = .hole caps :: parts ps rest := by
  have hdrop : s.drop (s.length - rest.length) = rest := by
    rcases List.suffix_cons_iff.mp (matchAt_suffix h) with rfl | hsuffix
    · simp at hlt
    · exact (List.suffix_iff_eq_drop.mp hsuffix).symm
  unfold parts
  rw [cut, h]
  simp only [if_pos hlt]
  rw [cut_drop (Nat.sub_le _ _), hdrop]

theorem replaceAll_eq_fill (f : List (List α) → List α) (s : List α) :
    replaceAll ps f s = (parts ps s).flatMap (Slot.fill f) := by
  fun_induction replaceAll ps f s with
  | case1 hnone =>
    unfold parts
    rw [cut, hnone]
    rfl
  | case2 a s hnone ih =>
    rw [hnone, parts_none hnone, List.flatMap_cons, ← ih]
    rfl
  | case3 caps rest hsome =>
    unfold parts
    rw [cut, hsome]
    exact (List.append_nil _).symm
  | case4 caps rest a s hlt hsome ih =>
    rw [hsome, parts_some hsome hlt, List.flatMap_cons, ← ih]
    exact if_pos hlt
  | case5 caps rest a s hlt hsome ih =>
    unfold parts at ih ⊢
    rw [cut, hsome]
    simp only [if_neg hlt]
    rw [List.flatMap_cons, List.flatMap_cons, ← ih]
    rfl

end

/-! ## Reading the parts -/

section

variable (δ : σ → α → σ) (P : α → Prop)

/-- From the state `q`, the automaton comes to no hole in a state that a symbol with `P` changes. -/
def Inert : σ → List (Slot α) → Prop
  | _, [] => True
  | q, .kept a :: l => Inert (δ q a) l
  | q, .hole _ :: l => (∀ a, P a → δ q a = q) ∧ Inert q l

variable {δ P}

theorem foldl_eq_self {q : σ} (hq : ∀ a, P a → δ q a = q) {w : List α} (hw : ∀ a ∈ w, P a) :
    w.foldl δ q = q := by
  induction w with
  | nil => rfl
  | cons a w ih =>
    rw [List.foldl_cons, hq a (hw a List.mem_cons_self)]
    exact ih fun b hb => hw b (List.mem_cons_of_mem a hb)

theorem Inert.foldl {q : σ} {l : List (Slot α)} (h : Inert δ P q l) {f : List (List α) → List α}
    (hf : ∀ caps, ∀ a ∈ f caps, P a) :
    (l.flatMap (Slot.fill f)).foldl δ q = (l.filterMap Slot.kept?).foldl δ q := by
  induction l generalizing q with
  | nil => rfl
  | cons p l ih =>
    rcases p with a | caps
    · exact ih h
    · rw [List.flatMap_cons, List.foldl_append]
      show (l.flatMap (Slot.fill f)).foldl δ ((f caps).foldl δ q) = _
      rw [foldl_eq_self h.1 (hf caps)]
      exact ih h.2

end

end Text
