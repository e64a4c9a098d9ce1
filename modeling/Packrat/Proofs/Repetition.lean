import Packrat.Proofs.Again
import Packrat.Proofs.Visits

/-!
# Repetitions

The loop of a repetition is described without its budget by `Matcher.Collects`, which has one case
for each way in which an attempt can go on. The loop collects what it says
(`Matcher.Collects.collect_eq`, `Matcher.Collects.of_collect`), and is halted only by an attempt
(`Matcher.collect_error`).

From there follows the closed form. As long as matches consume something, each is an item
(`Matcher.Strides`). The first that consumes nothing would be got again and again
(`Expr.matcher_stalls`), so it fills the count up to its least number, and no more is attempted.
-/

namespace Packrat

namespace Matcher

/-- What the loop of a repetition collects behind `n` items, and the state that it leaves. -/
inductive Collects (count : Count) (m : Matcher) : Nat → State → List Value → State → Prop where
  | full {n : Nat} {s : State} (hfull : count.isFull n = true) : Collects count m n s [] s
  | stop {n : Nat} {s t : State} (hopen : count.isFull n = false) (h : m s = .ok .failed t) :
      Collects count m n s [] t
  | stall {n : Nat} {s t : State} {v : Value} (hopen : count.isFull n = false)
      (h : m s = .ok (.matched t.cursor v) t) (hstall : t.cursor = s.cursor)
      (henough : count.least ≤ n + 1) : Collects count m n s [v] t
  | next {n : Nat} {s t u : State} {v : Value} {vs : List Value} (hopen : count.isFull n = false)
      (h : m s = .ok (.matched t.cursor v) t)
      (hgo : ¬ (t.cursor = s.cursor ∧ count.least ≤ n + 1))
      (rest : Collects count m (n + 1) t vs u) : Collects count m n s (v :: vs) u

/-- The matcher matches again and again, each time from where the match before it has ended, and
each match consumes something. -/
inductive Strides (m : Matcher) : State → List Value → State → Prop where
  | start (s : State) : Strides m s [] s
  | next {s t u : State} {v : Value} {vs : List Value} (h : m s = .ok (.matched t.cursor v) t)
      (hgo : t.cursor ≠ s.cursor) (rest : Strides m t vs u) : Strides m s (v :: vs) u

end Matcher

section

variable {env : Env} {total : Prop} {count : Count} {m : Matcher} {k n : Nat} {s t u : State}
  {v : Value} {vs ws : List Value} {x : Expr}

theorem Count.isFull_eq_false_iff : count.isFull n = false ↔ ∀ b ∈ count.most, n < b := by
  unfold isFull
  cases count.most <;> simp

theorem Count.isFull_eq_true_iff : count.isFull n = true ↔ ∃ b ∈ count.most, b ≤ n := by
  unfold isFull
  cases count.most <;> simp

/-! ## The loop -/

namespace Matcher

/-- Every attempt but the last moves the cursor or is needed to fill the count, so a budget that is
enough before it is enough after it. -/
theorem budget_next {budget : Nat} (hs : s.cursor ≤ t.cursor) (ht : t.cursor ≤ env.length)
    (hgo : ¬ (t.cursor = s.cursor ∧ count.least ≤ n + 1))
    (hb : count.least - n + (env.length - s.cursor) < budget + 1) :
    count.least - (n + 1) + (env.length - t.cursor) < budget := by
  rw [not_and_or] at hgo
  omega

theorem Collects.collect_eq (hm : m.Orderly env total) (h : Collects count m n s vs t)
    (hs : Sane env s) {budget : Nat} (hb : count.least - n + (env.length - s.cursor) < budget)
    {items : Array Value} (hn : items.size = n) :
    collect count m budget items s = .ok (items ++ vs.toArray) t := by
  induction h generalizing budget items with
  | full hfull =>
    obtain ⟨budget, rfl⟩ : ∃ b, budget = b + 1 := ⟨budget - 1, by omega⟩
    rw [run_collect_succ, hn, if_pos hfull]
    simp
  | stop hopen h =>
    obtain ⟨budget, rfl⟩ : ∃ b, budget = b + 1 := ⟨budget - 1, by omega⟩
    rw [run_collect_succ, hn, hopen, h]
    simp
  | stall hopen h hstall henough =>
    obtain ⟨budget, rfl⟩ : ∃ b, budget = b + 1 := ⟨budget - 1, by omega⟩
    rw [run_collect_succ, hn, hopen, h]
    simp [hstall, hn, henough]
  | next hopen h hgo _ ih =>
    obtain ⟨budget, rfl⟩ : ∃ b, budget = b + 1 := ⟨budget - 1, by omega⟩
    obtain ⟨ht, -, hle, hbound, -⟩ := hm.lands hs h
    rw [run_collect_succ, hn, hopen, h]
    dsimp only
    rw [if_neg Bool.false_ne_true, Array.size_push, hn, if_neg hgo,
      ih ht (budget_next hle hbound hgo hb) (by rw [Array.size_push, hn])]
    simp

theorem Collects.of_collect (hm : m.Orderly env total) (hs : Sane env s) {budget : Nat}
    {items items' : Array Value} (h : collect count m budget items s = .ok items' t) :
    ∃ vs, items' = items ++ vs.toArray ∧ Collects count m items.size s vs t := by
  induction budget generalizing items s with
  | zero => cases h
  | succ budget ih =>
    rw [run_collect_succ] at h
    cases hfull : count.isFull items.size with
    | true =>
      rw [hfull] at h
      cases h
      exact ⟨[], by simp, .full hfull⟩
    | false =>
      rw [hfull, if_neg Bool.false_ne_true] at h
      cases hr : m s with
      | error e u => rw [hr] at h; cases h
      | ok o u =>
        obtain ⟨hu, hland⟩ := hm.lands hs hr
        rw [hr] at h
        cases o with
        | failed =>
          cases h
          exact ⟨[], by simp, .stop hfull hr⟩
        | matched stop v =>
          obtain ⟨rfl, -⟩ := hland
          dsimp only at h
          rw [Array.size_push] at h
          by_cases hgo : u.cursor = s.cursor ∧ count.least ≤ items.size + 1
          · rw [if_pos hgo] at h
            cases h
            exact ⟨[v], by simp, .stall hfull hr hgo.1 hgo.2⟩
          · rw [if_neg hgo] at h
            obtain ⟨vs, hvs, hc⟩ := ih hu h
            rw [Array.size_push] at hc
            exact ⟨v :: vs, by simp [hvs], .next hfull hr hgo hc⟩

/-- The loop is halted only by an attempt. -/
theorem collect_error (hm : m.Orderly env total) (hs : Sane env s) {budget : Nat}
    {items : Array Value} (hb : count.least - items.size + (env.length - s.cursor) < budget)
    {e : Halt} (h : collect count m budget items s = .error e u) :
    ∃ left items' t, Iterates count m budget items s (left + 1) items' t ∧
      count.isFull items'.size = false ∧ m t = .error e u := by
  induction budget generalizing items s with
  | zero => omega
  | succ budget ih =>
    rw [run_collect_succ] at h
    cases hfull : count.isFull items.size with
    | true =>
      rw [hfull] at h
      cases h
    | false =>
      rw [hfull, if_neg Bool.false_ne_true] at h
      cases hr : m s with
      | error e' t =>
        rw [hr] at h
        cases h
        exact ⟨budget, items, s, .start .., hfull, hr⟩
      | ok o t =>
        obtain ⟨ht, hland⟩ := hm.lands hs hr
        rw [hr] at h
        cases o with
        | failed => cases h
        | matched stop v =>
          obtain ⟨rfl, hle, hbound, -⟩ := hland
          dsimp only at h
          by_cases hgo : t.cursor = s.cursor ∧ count.least ≤ (items.push v).size
          · rw [if_pos hgo] at h
            cases h
          · rw [if_neg hgo] at h
            have hb' := budget_next hle hbound (by rw [← Array.size_push]; exact hgo) hb
            rw [← Array.size_push (v := v)] at hb'
            obtain ⟨left, items', t', hit, hrest⟩ := ih ht hb' h
            exact ⟨left, items', t', .next hfull hr hgo hit, hrest⟩

theorem Collects.length_le (h : Collects count m n s vs t) {b : Nat} (hb : b ∈ count.most)
    (hn : n ≤ b) : n + vs.length ≤ b := by
  induction h with
  | full | stop => exact hn
  | stall hopen => exact Count.isFull_eq_false_iff.mp hopen b hb
  | next hopen _ _ _ ih =>
    have := ih (Count.isFull_eq_false_iff.mp hopen b hb)
    rw [List.length_cons]
    omega

/-! ## Repetitions and their items -/

theorem Collects.repeated_eq (hm : m.Orderly env total) (hs : Sane env s) (label : String)
    (h : Collects count m 0 s vs t) :
    repeated env label count m s =
      if count.least ≤ vs.length then
        .ok (.matched t.cursor (.list vs)) (t.cutBack s.failures.size)
      else .ok .failed ((t.moveTo env s.cursor).record (.tooFew label vs.length)) := by
  have hb : count.least - 0 + (env.length - s.cursor) <
      count.least + (env.length - s.cursor) + 1 := by omega
  have hcollect := h.collect_eq hm hs hb (show (#[] : Array Value).size = 0 from rfl)
  rw [run_repeated, hcollect]
  simp

theorem repeated_cases (hm : m.Orderly env total) (hs : Sane env s) (label : String)
    (count : Count) :
    (∃ vs t, Collects count m 0 s vs t) ∨
      ∃ e u left items t, repeated env label count m s = .error e u ∧
        Iterates count m (count.least + (env.length - s.cursor) + 1) #[] s (left + 1) items t ∧
        count.isFull items.size = false ∧ m t = .error e u := by
  cases hr : collect count m (count.least + (env.length - s.cursor) + 1) #[] s with
  | ok items t =>
    obtain ⟨vs, -, hc⟩ := Collects.of_collect hm hs hr
    exact .inl ⟨vs, t, hc⟩
  | error e u =>
    obtain ⟨left, items, t, hit, hopen, hm⟩ := collect_error hm hs (by simp) hr
    refine .inr ⟨e, u, left, items, t, ?_, hit, hopen, hm⟩
    rw [run_repeated, hr]

/-! ## Matches that consume something -/

theorem Strides.sane (hm : m.Orderly env total) (h : Strides m s vs t) (hs : Sane env s) :
    Sane env t := by
  induction h with
  | start s => exact hs
  | next h _ _ ih => exact ih (hm.lands hs h).1

theorem Strides.collects (h : Strides m s vs t) (hopen : ∀ b ∈ count.most, n + vs.length ≤ b)
    (hrest : Collects count m (n + vs.length) t ws u) : Collects count m n s (vs ++ ws) u := by
  induction h generalizing n with
  | start s => exact hrest
  | @next s t' t v vs h hgo _ ih =>
    rw [List.length_cons, show n + (vs.length + 1) = n + 1 + vs.length by omega] at hopen hrest
    refine .next (Count.isFull_eq_false_iff.mpr fun b hb => ?_) h (fun hz => hgo hz.1)
      (ih hopen hrest)
    have := hopen b hb
    omega

/-- An attempt behind such matches that is halted halts the loop. -/
theorem Strides.collect_halted (hm : m.Orderly env total) (h : Strides m s vs t) (hs : Sane env s)
    {e : Halt} (he : m t = .error e u) {budget : Nat} {items : Array Value}
    (hopen : ∀ b ∈ count.most, items.size + vs.length < b)
    (hb : count.least - items.size + (env.length - s.cursor) < budget) :
    collect count m budget items s = .error e u := by
  induction h generalizing budget items with
  | start s =>
    obtain ⟨budget, rfl⟩ : ∃ b, budget = b + 1 := ⟨budget - 1, by omega⟩
    have hfull : count.isFull items.size = false := Count.isFull_eq_false_iff.mpr hopen
    rw [run_collect_succ, hfull, he]
    rfl
  | @next s t' t v vs h hgo _ ih =>
    obtain ⟨budget, rfl⟩ : ∃ b, budget = b + 1 := ⟨budget - 1, by omega⟩
    obtain ⟨ht, -, hle, hbound, -⟩ := hm.lands hs h
    have hopen' : ∀ b ∈ count.most, (items.push v).size + vs.length < b := by
      intro b hb
      have := hopen b hb
      rw [List.length_cons] at this
      rw [Array.size_push]
      omega
    have hfull : count.isFull items.size = false :=
      Count.isFull_eq_false_iff.mpr fun b hb => by
        have := hopen b hb
        omega
    have hb' := budget_next hle hbound (fun hz => hgo hz.1) hb
    rw [← Array.size_push (v := v)] at hb'
    rw [run_collect_succ, hfull, h]
    dsimp only
    rw [if_neg Bool.false_ne_true, if_neg fun hz => hgo hz.1]
    exact ih ht he hopen' hb'

theorem Strides.repeated_halted (hm : m.Orderly env total) (h : Strides m s vs t)
    (hs : Sane env s) (label : String) {e : Halt} (he : m t = .error e u)
    (hopen : ∀ b ∈ count.most, vs.length < b) : repeated env label count m s = .error e u := by
  rw [run_repeated, h.collect_halted hm hs he (by simpa using hopen) (by simp)]

/-- Where the count ends the repetition the matches are the items. -/
theorem Strides.repeated_full (hm : m.Orderly env total) (h : Strides m s vs t) (hs : Sane env s)
    (label : String) (hfull : count.most = some vs.length) :
    repeated env label count m s =
      .ok (.matched t.cursor (.list vs)) (t.cutBack s.failures.size) := by
  have hend : Collects count m (0 + vs.length) t [] t :=
    .full (Count.isFull_eq_true_iff.mpr ⟨_, hfull, by omega⟩)
  have hcol := h.collects (by simp [hfull]) hend
  rw [List.append_nil] at hcol
  rw [hcol.repeated_eq hm hs label, if_pos (count.ordered _ hfull)]

/-- Where a failing attempt ends the repetition the matches are the items, if they are enough. -/
theorem Strides.repeated_open (hm : m.Orderly env total) (h : Strides m s vs t) (hs : Sane env s)
    (label : String) (hopen : ∀ b ∈ count.most, vs.length < b) (hu : m t = .ok .failed u) :
    repeated env label count m s =
      if count.least ≤ vs.length then
        .ok (.matched u.cursor (.list vs)) (u.cutBack s.failures.size)
      else .ok .failed ((u.moveTo env s.cursor).record (.tooFew label vs.length)) := by
  have hend : Collects count m (0 + vs.length) t [] u :=
    .stop (Count.isFull_eq_false_iff.mpr (by simpa using hopen)) hu
  have hcol := h.collects (fun b hb => by have := hopen b hb; omega) hend
  rw [List.append_nil] at hcol
  exact hcol.repeated_eq hm hs label

/-- Where the matches end because the count is full or the next attempt fails, they are the
items. -/
theorem Strides.repeated_stopped (hm : m.Orderly env total) (h : Strides m s vs t)
    (hs : Sane env s) (label : String)
    (hstop : count.most = some vs.length ∨
      (∀ b ∈ count.most, vs.length < b) ∧ ∃ u, m t = .ok .failed u) :
    (count.least ≤ vs.length →
      ∃ w, repeated env label count m s = .ok (.matched t.cursor (.list vs)) w) ∧
    (vs.length < count.least → ∃ w, repeated env label count m s = .ok .failed w) := by
  rcases hstop with hfull | ⟨hopen, u, hu⟩
  · have hle := count.ordered _ hfull
    exact ⟨fun _ => ⟨_, h.repeated_full hm hs label hfull⟩, fun hshort => by omega⟩
  · have hc : u.cursor = t.cursor := (hm.lands (h.sane hm hs) hu).2.1
    rw [h.repeated_open hm hs label hopen hu, hc]
    constructor
    · intro henough
      exact ⟨_, if_pos henough⟩
    · intro hshort
      exact ⟨_, if_neg (by omega)⟩

/-- The matches that consume something come to an end: the count is full, or the next attempt
consumes nothing, fails or is halted. -/
theorem Strides.exists_end (hm : m.Orderly env total) (hs : Sane env s)
    (hn : ∀ b ∈ count.most, n ≤ b) :
    ∃ vs t, Strides m s vs t ∧ (∀ b ∈ count.most, n + vs.length ≤ b) ∧
      (count.most = some (n + vs.length) ∨ (∀ b ∈ count.most, n + vs.length < b) ∧
        ((∃ v u, m t = .ok (.matched u.cursor v) u ∧ u.cursor = t.cursor) ∨
          (∃ u, m t = .ok .failed u) ∨ ∃ e u, m t = .error e u)) := by
  -- every stride leaves less of the text
  induction hd : env.length - s.cursor using Nat.strong_induction_on generalizing s n with
  | _ d ih =>
    subst hd
    by_cases hfull : count.most = some n
    · exact ⟨[], s, .start s, hn, .inl hfull⟩
    have hopen : ∀ b ∈ count.most, n < b := by
      intro b hb
      have hne : n ≠ b := by
        rintro rfl
        exact hfull hb
      exact Nat.lt_of_le_of_ne (hn b hb) hne
    rcases hm.run_cases hs with ⟨v, t, hr, ht⟩ | hfail | hhalt
    · obtain ⟨-, hle, hbound, -⟩ := (hm.lands hs hr).2
      by_cases hgo : t.cursor = s.cursor
      · exact ⟨[], s, .start s, hn, .inr ⟨hopen, .inl ⟨v, t, hr, hgo⟩⟩⟩
      · obtain ⟨vs, u, hst, hlen, hend⟩ := ih (env.length - t.cursor) (by omega) ht hopen rfl
        have heq : n + (v :: vs).length = n + 1 + vs.length := by
          rw [List.length_cons]
          omega
        exact ⟨v :: vs, u, .next hr hgo hst, heq ▸ hlen, heq ▸ hend⟩
    · exact ⟨[], s, .start s, hn, .inr ⟨hopen, .inr (.inl hfail)⟩⟩
    · exact ⟨[], s, .start s, hn, .inr ⟨hopen, .inr (.inr hhalt)⟩⟩

end Matcher

/-! ## A match that consumes nothing -/

theorem sized_of_matcher {o : Outcome Value} (hs : Sane env s) (hz : Sized env s)
    (h : x.matcher env (callRule env k) s = .ok o t) : Sized env t :=
  ((Carried.kept (kept_sized env k)).matcher x h hs hz).2

theorem Matcher.Strides.sized (h : Strides (x.matcher env (callRule env k)) s vs t)
    (hs : Sane env s) (hz : Sized env s) : Sized env t := by
  induction h with
  | start s => exact hz
  | next h _ _ ih => exact ih ((x.orderly_callRule env k).lands hs h).1 (sized_of_matcher hs hz h)

/-- A match that consumes nothing is collected until there are enough items. -/
theorem Expr.collects_stalled (hmem : env.memoizing = true) (x : Expr) (hs : Sane env s)
    (hz : Sized env s) (h : x.matcher env (callRule env k) s = .ok (.matched t.cursor v) t)
    (hstall : t.cursor = s.cursor) (hopen : ∀ b ∈ count.most, n < b) :
    ∃ u, u.cursor = s.cursor ∧ Matcher.Collects count (x.matcher env (callRule env k)) n s
      (List.replicate (max count.least (n + 1) - n) v) u := by
  -- the induction is on the number of items that are missing
  induction hd : count.least - (n + 1) generalizing n s t with
  | zero =>
    have hrep : List.replicate (max count.least (n + 1) - n) v = [v] := by
      rw [show max count.least (n + 1) - n = 1 by omega, List.replicate_one]
    rw [hrep]
    exact ⟨t, hstall, .stall (Count.isFull_eq_false_iff.mpr hopen) h hstall (by omega)⟩
  | succ d ih =>
    obtain ⟨u, hu, hc⟩ := x.matcher_stalls hmem hs hz h hstall
    have ht := ((x.orderly_callRule env k).lands hs h).1
    have hopen' : ∀ b ∈ count.most, n + 1 < b := by
      intro b hb
      have := count.ordered b hb
      omega
    obtain ⟨w, hw, hcol⟩ := ih ht (sized_of_matcher hs hz h) hu hc hopen' (by omega)
    have hrep : List.replicate (max count.least (n + 1) - n) v =
        v :: List.replicate (max count.least (n + 1 + 1) - (n + 1)) v := by
      rw [← List.replicate_succ]
      congr 1
      omega
    rw [hrep]
    refine ⟨w, hw.trans hstall, .next (Count.isFull_eq_false_iff.mpr hopen) h ?_ hcol⟩
    omega

/-- A match that consumes nothing fills the items up to the least number. -/
theorem Expr.repeated_stalled (hmem : env.memoizing = true) (x : Expr) (hs : Sane env s)
    (hz : Sized env s) (label : String)
    (h : Matcher.Strides (x.matcher env (callRule env k)) s vs t)
    (hopen : ∀ b ∈ count.most, vs.length < b)
    (hu : x.matcher env (callRule env k) t = .ok (.matched u.cursor v) u)
    (hstall : u.cursor = t.cursor) :
    ∃ items w, Matcher.repeated env label count (x.matcher env (callRule env k)) s =
        .ok (.matched u.cursor (.list items)) w ∧
      items = vs ++ List.replicate (items.length - vs.length) v ∧
      items.length = max count.least (vs.length + 1) := by
  have hm := x.orderly_callRule env k
  obtain ⟨w, hw, hcol⟩ := x.collects_stalled hmem (h.sane hm hs) (h.sized hs hz) hu hstall hopen
  rw [← Nat.zero_add vs.length] at hcol
  have hall := h.collects (fun b hb => by have := hopen b hb; omega) hcol
  rw [Nat.zero_add] at hall
  have hlen : (vs ++ List.replicate (max count.least (vs.length + 1) - vs.length) v).length =
      max count.least (vs.length + 1) := by
    rw [List.length_append, List.length_replicate]
    omega
  refine ⟨_, w.cutBack s.failures.size, ?_, by rw [hlen], hlen⟩
  rw [hall.repeated_eq hm hs label, if_pos (by rw [hlen]; omega), hw, hstall]

end

/-- The closed form of a repetition, wherever a session evaluates one and with any limit. The
matches of its part are followed from where the repetition begins, each from where the one before
it has ended, as long as they consume something. If the next attempt matches and consumes nothing,
it fills the items up to the least number and ends the repetition. If it fails, or if the count is
full, the matches so far are the items, and the repetition fails exactly if they are too few. If it
is halted, so is the repetition. One of this is always so.

Hence the number of items is always within the count, and a repetition does not fail if its part
does not. -/
theorem Session.repetition_closed_form (text : String) (blanks : List Char) (limit : Option Nat)
    (g : Grammar) (k : Nat) (label : String) (x : Expr) (count : Count) (s : State)
    (h : Session.Evaluates text { blanks, limit } g k (.repeatedAs label x count) s) :
    let env := Env.ofText text { blanks, limit }
    let m := x.matcher env (callRule env k)
    let result := (Expr.repeatedAs label x count).matcher env (callRule env k) s
    (∀ vs t v u, m.Strides s vs t → (∀ b ∈ count.most, vs.length < b) →
      m t = .ok (.matched u.cursor v) u → u.cursor = t.cursor →
      ∃ items w, result = .ok (.matched u.cursor (.list items)) w ∧
        items = vs ++ List.replicate (items.length - vs.length) v ∧
        items.length = max count.least (vs.length + 1)) ∧
    (∀ vs t, m.Strides s vs t →
      (count.most = some vs.length ∨
        (∀ b ∈ count.most, vs.length < b) ∧ ∃ u, m t = .ok .failed u) →
      (count.least ≤ vs.length → ∃ w, result = .ok (.matched t.cursor (.list vs)) w) ∧
      (vs.length < count.least → ∃ w, result = .ok .failed w)) ∧
    (∀ vs t e u, m.Strides s vs t → (∀ b ∈ count.most, vs.length < b) → m t = .error e u →
      result = .error e u) ∧
    (∃ vs t, m.Strides s vs t ∧
      (count.most = some vs.length ∨ (∀ b ∈ count.most, vs.length < b) ∧
        ((∃ v u, m t = .ok (.matched u.cursor v) u ∧ u.cursor = t.cursor) ∨
          (∃ u, m t = .ok .failed u) ∨ ∃ e u, m t = .error e u))) ∧
    (∀ stop v w, result = .ok (.matched stop v) w → ∃ items, v = .list items ∧
      count.least ≤ items.length ∧ ∀ b ∈ count.most, items.length ≤ b) ∧
    ((∀ vs t u, m.Strides s vs t → m t ≠ .ok .failed u) → ∀ w, result ≠ .ok .failed w) := by
  intro env m result
  have hm : m.Orderly env False := x.orderly_callRule env k
  obtain ⟨hs, hz⟩ := h.kept (kept_sized _) fun _ _ hmem => Session.sized_of_mem_moments hmem
  obtain ⟨vs, t, hst, -, hend⟩ :=
    Matcher.Strides.exists_end hm hs fun b (_ : b ∈ count.most) => Nat.zero_le b
  rw [Nat.zero_add] at hend
  refine ⟨?_, ?_, ?_, ⟨vs, t, hst, hend⟩, ?_, ?_⟩
  · intro vs t v u hst hopen hu hstall
    exact x.repeated_stalled rfl hs hz label hst hopen hu hstall
  · intro vs t hst hstop
    exact hst.repeated_stopped hm hs label hstop
  · intro vs t e u hst hopen he
    exact hst.repeated_halted hm hs label he hopen
  · intro stop v w hr
    rcases Matcher.repeated_cases hm hs label count with
      ⟨vs, t, hcol⟩ | ⟨e, u, _, _, _, he, -⟩
    · rw [show result = _ from hcol.repeated_eq hm hs label] at hr
      split at hr
      next henough =>
        cases hr
        refine ⟨vs, rfl, henough, fun b hb => ?_⟩
        simpa using hcol.length_le hb (Nat.zero_le b)
      next => cases hr
    · rw [show result = _ from he] at hr
      cases hr
  · intro hnever w hr
    rcases hend with hfull | ⟨hopen, ⟨v, u, hu, hstall⟩ | ⟨u, hu⟩ | ⟨e, u, hu⟩⟩
    · obtain ⟨henough, -⟩ := hst.repeated_stopped hm hs label (.inl hfull)
      obtain ⟨w', hw'⟩ := henough (count.ordered _ hfull)
      rw [show result = _ from hw'] at hr
      cases hr
    · obtain ⟨items, w', hw', -⟩ := x.repeated_stalled rfl hs hz label hst hopen hu hstall
      rw [show result = _ from hw'] at hr
      cases hr
    · exact hnever vs t u hst hu
    · rw [show result = _ from hst.repeated_halted hm hs label hu hopen] at hr
      cases hr

/-- A digit, and then nothing as often as it takes to have three items. -/
theorem Session.repetition_closed_form_digit :
    let env := Env.ofText "7" { limit := some 0 }
    let s := State.start env {}
    let x := (Expr.builtin .digit).optional
    let count : Count := ⟨3, some 5, by simp⟩
    Session.Evaluates "7" { limit := some 0 } {} 0 (x.repeated count) s ∧
      ∃ items w, (x.repeated count).evaluate env s = .ok (.matched 1 (.list items)) w ∧
        items.length = 3 := by
  intro env s x count
  have hv : Session.Evaluates "7" { limit := some 0 } {} 0 (x.repeated count) s :=
    ⟨[], x.repeated count, [], .here⟩
  let m := x.matcher env (callRule env 0)
  obtain ⟨t, u, hst, hu, hstop, hstall⟩ : ∃ t u, m.Strides s [.some (.char '7')] t ∧
      m t = .ok (.matched u.cursor .none) u ∧ u.cursor = 1 ∧ u.cursor = t.cursor :=
    ⟨_, _, .next rfl (by decide) (.start _), rfl, rfl, rfl⟩
  obtain ⟨hstalled, -⟩ := Session.repetition_closed_form "7" defaultBlanks (some 0) {} 0 _ x count
    s hv
  obtain ⟨items, w, hw, -, hlen⟩ := hstalled _ t _ u hst (by simp [count]) hu hstall
  rw [hstop] at hw
  exact ⟨hv, items, w, hw, hlen⟩

end Packrat
