import Packrat.Expr.Build
import Packrat.Proofs.Frame
import Packrat.Proofs.Visits

/-!
# Choices inside choices

A tree of choices tries its leaves like a single choice of them: one after the other, each from
where the tree began, up to the first that does not fail (`ChoiceTree.ends`). That leaf decides, and
no later one is evaluated (`ChoiceTree.Tries.allFail`). So a tree and the choice of its leaves come
to the same and leave the same state (`Session.choices_flatten`). Only if all leaves fail can they
be told apart: each choice inside the tree adds a failure of its own behind those of its leaves
(`ChoiceTree.report`).
-/

namespace Packrat

/-- A tree of choices. -/
inductive ChoiceTree where
  /-- An alternative that is not divided further. -/
  | leaf (x : Expr)
  /-- A choice. -/
  | node (alternatives : List ChoiceTree)

namespace ChoiceTree

mutual

/-- The expression that a tree stands for. -/
def expr : ChoiceTree → Expr
  | .leaf x => x
  | .node ts => .choice (exprs ts)

/-- The expressions that the trees stand for. -/
def exprs : List ChoiceTree → List Expr
  | [] => []
  | T :: rest => T.expr :: exprs rest

end

theorem expr_orElse (l r : ChoiceTree) : (node [l, r]).expr = l.expr.orElse r.expr := rfl

mutual

/-- The leaves of a tree, from left to right. -/
def leaves : ChoiceTree → List Expr
  | .leaf x => [x]
  | .node ts => leavesOf ts

/-- The leaves of the trees, from left to right. -/
def leavesOf : List ChoiceTree → List Expr
  | [] => []
  | T :: rest => T.leaves ++ leavesOf rest

end

mutual

/-- The failures that a tree adds at `p` if its leaves have added the given ones: behind those of
the leaves of each choice the one of the choice itself. -/
def report (p : Nat) : ChoiceTree → List (List Failure) → List Failure
  | .leaf _, fss => fss.flatten
  | .node ts, fss => reports p ts fss ++ [⟨p, .wrong (node ts).expr.label⟩]

/-- The failures that the trees add at `p`, one behind the other. -/
def reports (p : Nat) : List ChoiceTree → List (List Failure) → List Failure
  | [], _ => []
  | T :: rest, fss =>
    T.report p (fss.take T.leaves.length) ++ reports p rest (fss.drop T.leaves.length)

end

/-- Evaluating a tree from `s` comes to evaluate the leaf with the given index from another state,
where `call` evaluates rules. -/
inductive Tries (env : Env) (call : RuleId → Matcher) :
    ChoiceTree → State → Nat → State → Prop where
  | leaf (x : Expr) (s : State) : Tries env call (.leaf x) s 0 s
  | node {tried : List ChoiceTree} {T : ChoiceTree} (rest : List ChoiceTree) {s t u : State}
      {i : Nat}
      (h : Matcher.firstOf env s.cursor (Expr.matchers env call (exprs tried)) s = .ok .failed t)
      (h' : Tries env call T t i u) :
      Tries env call (.node (tried ++ T :: rest)) s ((leavesOf tried).length + i) u

end ChoiceTree

namespace Expr

/-- The expressions fail one after the other, each from where the first one begins, and add the
given failures. -/
inductive AllFail (env : Env) (call : RuleId → Matcher) :
    List Expr → State → List (List Failure) → State → Prop where
  | nil (s : State) : AllFail env call [] s [] s
  | cons {x : Expr} {xs : List Expr} {fs : List Failure} {fss : List (List Failure)}
      {s t u : State} (h : x.matcher env call s = .ok .failed t)
      (hfs : t.failures = s.failures ++ fs.toArray)
      (rest : AllFail env call xs (t.moveTo env s.cursor) fss u) :
      AllFail env call (x :: xs) s (fs :: fss) u

/-- How the evaluation of something that tries `xs` from `s` ends, whatever failures it begins with.
If all of them fail it adds what `report` makes of their failures. -/
inductive Ends (env : Env) (call : RuleId → Matcher) (xs : List Expr) (s : State)
    (report : List (List Failure) → List Failure)
    (run : Array Failure → Result (Outcome Value)) : Prop where
  | failed {fss : List (List Failure)} {t : State} (h : AllFail env call xs s fss t)
      (hrun : ∀ below, run below =
        .ok .failed { t with failures := below ++ (report fss).toArray })
  | matched {before after : List Expr} {x : Expr} {fss : List (List Failure)} {t u : State}
      {v : Value} (heq : xs = before ++ x :: after) (h : AllFail env call before s fss t)
      (hx : x.matcher env call t = .ok (.matched u.cursor v) u)
      (hrun : ∀ below, ∃ fs, run below =
        .ok (.matched u.cursor v) { u with failures := below ++ fs })
  | halted {before after : List Expr} {x : Expr} {fss : List (List Failure)} {t u : State}
      {e : Halt} (heq : xs = before ++ x :: after) (h : AllFail env call before s fss t)
      (hx : x.matcher env call t = .error e u)
      (hrun : ∀ below, ∃ fs, run below = .error e { u with failures := fs })

end Expr

section

variable {env : Env} {n : Nat} {s t u : State} {xs ys : List Expr} {x : Expr}
  {fss fss' : List (List Failure)}

/-! ## Failing alternatives -/

namespace Expr.AllFail

theorem length_eq {call : RuleId → Matcher} (h : AllFail env call xs s fss t) :
    fss.length = xs.length := by
  induction h with
  | nil s => rfl
  | cons _ _ _ ih => rw [List.length_cons, List.length_cons, ih]

theorem append {call : RuleId → Matcher} (h : AllFail env call xs s fss t)
    (h' : AllFail env call ys t fss' u) : AllFail env call (xs ++ ys) s (fss ++ fss') u := by
  induction h with
  | nil s => exact h'
  | cons h hfs _ ih => exact .cons h hfs (ih h')

theorem lands (hs : Sane env s) (h : AllFail env (callRule env n) xs s fss t) :
    Sane env t ∧ t.cursor = s.cursor ∧ t.failures = s.failures ++ fss.flatten.toArray := by
  induction h with
  | nil s => exact ⟨hs, rfl, by simp⟩
  | @cons x xs fs fss s t u h hfs _ ih =>
    have ht := ((x.orderly_callRule env n).lands hs h).1
    obtain ⟨hu, hc, hf⟩ := ih (ht.of_memo rfl (Nat.min_le_right ..))
    refine ⟨hu, hc.trans (moveTo_start hs.cursor t), ?_⟩
    rw [hf, State.moveTo_failures, hfs]
    simp

/-- A choice whose first alternatives fail goes on with the others. -/
theorem firstOf_append (hs : Sane env s) (h : AllFail env (callRule env n) xs s fss t)
    (ys : List Expr) :
    Matcher.firstOf env s.cursor (matchers env (callRule env n) (xs ++ ys)) s =
      Matcher.firstOf env s.cursor (matchers env (callRule env n) ys) t := by
  induction h with
  | nil s => rfl
  | @cons x xs fs fss s t u h hfs _ ih =>
    have ht := ((x.orderly_callRule env n).lands hs h).1
    have hrest := ih (ht.of_memo rfl (Nat.min_le_right ..))
    rw [moveTo_start hs.cursor t] at hrest
    rw [List.cons_append, matchers, Matcher.run_firstOf_cons, h]
    exact hrest

/-- A choice fails where all alternatives do, and adds its own failure to theirs. -/
theorem run_choice_failed (hs : Sane env s) (h : AllFail env (callRule env n) xs s fss t) :
    (choice xs).matcher env (callRule env n) s = .ok .failed { t with
      failures := s.failures ++
        (fss.flatten ++ [Failure.mk s.cursor (.wrong (choice xs).label)]).toArray } := by
  obtain ⟨-, hc, hf⟩ := h.lands hs
  have hgo := h.firstOf_append hs []
  rw [List.append_nil] at hgo
  rw [choice, matcher, Matcher.run_choice, hgo, matchers, Matcher.run_firstOf_nil]
  dsimp only
  rw [State.record, hc, hf]
  simp [label]

/-- The first alternative that matches decides, and the failures before it are cut back. -/
theorem run_choice_matched {before after : List Expr} {v : Value} (hs : Sane env s)
    (h : AllFail env (callRule env n) before s fss t)
    (hx : x.matcher env (callRule env n) t = .ok (.matched u.cursor v) u) :
    (choice (before ++ x :: after)).matcher env (callRule env n) s =
      .ok (.matched u.cursor v) { u with failures := s.failures } := by
  obtain ⟨ht, -, hf⟩ := h.lands hs
  have hu := ((x.orderly_callRule env n).lands ht hx).2.2.2.2
  rw [choice, matcher, Matcher.run_choice, h.firstOf_append hs, matchers,
    Matcher.run_firstOf_cons, hx]
  dsimp only
  rw [State.cutBack, hu, hf]
  simp

/-- An alternative that is halted halts the choice. -/
theorem run_choice_halted {before after : List Expr} {e : Halt} (hs : Sane env s)
    (h : AllFail env (callRule env n) before s fss t)
    (hx : x.matcher env (callRule env n) t = .error e u) :
    (choice (before ++ x :: after)).matcher env (callRule env n) s = .error e u := by
  rw [choice, matcher, Matcher.run_choice, h.firstOf_append hs, matchers,
    Matcher.run_firstOf_cons, hx]

/-- If one expression does not fail behind some that do, then these are all that fail. -/
theorem length_le {call : RuleId → Matcher} {before after : List Expr} {i : Nat}
    (hb : AllFail env call before s fss t) (hx : ∀ u, x.matcher env call t ≠ .ok .failed u)
    (h : AllFail env call ((before ++ x :: after).take i) s fss' u) : i ≤ before.length := by
  induction hb generalizing i fss' with
  | nil s =>
    cases i with
    | zero => exact Nat.le_refl 0
    | succ i =>
      cases h with
      | cons h => exact absurd h (hx _)
  | cons hy hfs _ ih =>
    cases i with
    | zero => exact Nat.zero_le _
    | succ i =>
      cases h with
      | cons hy' _ hrest =>
        rw [hy] at hy'
        cases hy'
        exact Nat.succ_le_succ (ih hx hrest)

end Expr.AllFail

/-! ## Trees -/

namespace Expr.Ends

variable {m : Matcher} {ms : List Matcher} {report report' : List (List Failure) → List Failure}

/-- Further alternatives are tried behind those that fail. -/
theorem cons (hs : Sane env s)
    (h : Ends env (callRule env n) xs s report fun below => m { s with failures := below })
    (h' : ∀ t, Sane env t → t.cursor = s.cursor →
      Ends env (callRule env n) ys t report' fun below =>
        Matcher.firstOf env s.cursor ms { t with failures := below }) :
    Ends env (callRule env n) (xs ++ ys) s
      (fun fss => report (fss.take xs.length) ++ report' (fss.drop xs.length))
      fun below => Matcher.firstOf env s.cursor (m :: ms) { s with failures := below } := by
  cases h with
  | @failed fss t hall hrun =>
    obtain ⟨ht, hc, -⟩ := hall.lands hs
    have hgo : ∀ below, Matcher.firstOf env s.cursor (m :: ms) { s with failures := below } =
        Matcher.firstOf env s.cursor ms
          { t with failures := below ++ (report fss).toArray } := by
      intro below
      rw [Matcher.run_firstOf_cons, hrun below]
      dsimp only
      rw [State.moveTo, ← hc, Nat.min_eq_left ht.cursor]
    cases h' t ht hc with
    | failed hall' hrun' =>
      refine .failed (hall.append hall') fun below => ?_
      rw [hgo, hrun', List.take_left' hall.length_eq, List.drop_left' hall.length_eq]
      simp
    | matched heq hall' hx hrun' =>
      refine .matched (by rw [heq, List.append_assoc]) (hall.append hall') hx fun below => ?_
      obtain ⟨fs, hr⟩ := hrun' (below ++ (report fss).toArray)
      exact ⟨(report fss).toArray ++ fs, by rw [hgo, hr, Array.append_assoc]⟩
    | halted heq hall' hx hrun' =>
      refine .halted (by rw [heq, List.append_assoc]) (hall.append hall') hx fun below => ?_
      rw [hgo]
      exact hrun' _
  | matched heq hall hx hrun =>
    refine .matched (by rw [heq, List.append_assoc, List.cons_append]) hall hx fun below => ?_
    obtain ⟨fs, hr⟩ := hrun below
    exact ⟨fs, by rw [Matcher.run_firstOf_cons, hr]⟩
  | halted heq hall hx hrun =>
    refine .halted (by rw [heq, List.append_assoc, List.cons_append]) hall hx fun below => ?_
    obtain ⟨fs, hr⟩ := hrun below
    exact ⟨fs, by rw [Matcher.run_firstOf_cons, hr]⟩

/-- A choice drops the failures of its alternatives if one matches, and otherwise adds its own. -/
theorem choice (hs : Sane env s) (label : String)
    (h : Ends env (callRule env n) xs s report fun below =>
      Matcher.firstOf env s.cursor ms { s with failures := below }) :
    Ends env (callRule env n) xs s (fun fss => report fss ++ [⟨s.cursor, .wrong label⟩])
      fun below => Matcher.choice env label ms { s with failures := below } := by
  cases h with
  | @failed fss t hall hrun =>
    obtain ⟨-, hc, -⟩ := hall.lands hs
    refine .failed hall fun below => ?_
    rw [Matcher.run_choice, hrun]
    dsimp only
    rw [State.record, hc]
    simp
  | matched heq hall hx hrun =>
    refine .matched heq hall hx fun below => ⟨#[], ?_⟩
    obtain ⟨fs, hr⟩ := hrun below
    rw [Matcher.run_choice, hr]
    simp [State.cutBack]
  | halted heq hall hx hrun =>
    refine .halted heq hall hx fun below => ?_
    obtain ⟨fs, hr⟩ := hrun below
    exact ⟨fs, by rw [Matcher.run_choice, hr]⟩

end Expr.Ends

namespace ChoiceTree

open Packrat.Expr (Ends AllFail)

theorem ends_leaf (hs : Sane env s) (x : Expr) :
    Ends env (callRule env n) [x] s List.flatten fun below =>
      x.matcher env (callRule env n) { s with failures := below } := by
  have hlocal := Expr.local_run env n x
  have hnone : [x] = [] ++ x :: [] := rfl
  rcases (x.orderly_callRule env n).run_cases hs with ⟨v, t, hr, -⟩ | ⟨t, hr⟩ | ⟨e, t, hr⟩
  · obtain ⟨fs, -, hrun⟩ := hlocal.ok_withFailures hr
    exact .matched hnone (.nil s) hr fun below => ⟨fs, hrun below⟩
  · obtain ⟨fs, hfs, hrun⟩ := hlocal.ok_withFailures hr
    have hback : t.moveTo env s.cursor = t := by
      rw [State.moveTo, Nat.min_eq_left hs.cursor, ← ((x.orderly_callRule env n).lands hs hr).2.1]
    have hall : AllFail env (callRule env n) [x] s [fs.toList] (t.moveTo env s.cursor) :=
      .cons hr (by simpa using hfs) (.nil _)
    rw [hback] at hall
    exact .failed hall (by simpa using hrun)
  · exact .halted hnone (.nil s) hr fun below => hlocal.error_withFailures hr below

mutual

/-- A tree tries its leaves. -/
theorem ends {s : State} (hs : Sane env s) (T : ChoiceTree) :
    Ends env (callRule env n) T.leaves s (T.report s.cursor) fun below =>
      T.expr.matcher env (callRule env n) { s with failures := below } := by
  cases T with
  | leaf x => exact ends_leaf hs x
  | node ts => exact (endsOf hs ts).choice hs _

/-- Trees in a row try their leaves in a row. -/
theorem endsOf {s : State} (hs : Sane env s) (ts : List ChoiceTree) :
    Ends env (callRule env n) (leavesOf ts) s (reports s.cursor ts) fun below =>
      Matcher.firstOf env s.cursor (Expr.matchers env (callRule env n) (exprs ts))
        { s with failures := below } := by
  cases ts with
  | nil => exact .failed (.nil s) fun below => by simp [exprs, Expr.matchers, reports]
  | cons T rest =>
    refine (ends hs T).cons hs fun t ht hc => ?_
    rw [← hc]
    exact endsOf ht rest

end

theorem leavesOf_append (ts us : List ChoiceTree) :
    leavesOf (ts ++ us) = leavesOf ts ++ leavesOf us := by
  induction ts with
  | nil => rfl
  | cons T rest ih => rw [List.cons_append, leavesOf, leavesOf, ih, List.append_assoc]

theorem exprs_append (ts us : List ChoiceTree) : exprs (ts ++ us) = exprs ts ++ exprs us := by
  induction ts with
  | nil => rfl
  | cons T rest ih => rw [List.cons_append, exprs, exprs, ih, List.cons_append]

/-- What is tried is one of the leaves, and it is evaluated. -/
theorem Tries.visits {T : ChoiceTree} {i : Nat} (h : T.Tries env (callRule env n) s i t) :
    ∃ x, T.leaves[i]? = some x ∧ T.expr.Visits env n s [] n x t := by
  induction h with
  | leaf x s => exact ⟨x, rfl, .here⟩
  | @node tried T rest s t u i h _ ih =>
    obtain ⟨x, hx, hv⟩ := ih
    have hlt : i < T.leaves.length := (List.getElem?_eq_some_iff.mp hx).1
    refine ⟨x, ?_, ?_⟩
    · rw [leaves, leavesOf_append, List.getElem?_append_right (Nat.le_add_right ..),
        Nat.add_sub_cancel_left, leavesOf, List.getElem?_append_left hlt, hx]
    · have hp : (ChoiceTree.node (tried ++ T :: rest)).expr.Part env (callRule env n) s T.expr
          t := by
        rw [ChoiceTree.expr, exprs_append, exprs]
        exact .alternative _ _ _ h
      exact (Expr.Visits.here.part hp).trans hv

/-- A leaf is evaluated where all leaves in front of it have failed. -/
theorem Tries.allFail {T : ChoiceTree} {i : Nat} {s' w : State}
    (h : T.Tries env (callRule env n) s' i w) (hs : Sane env s) (hs' : s.Resembles s') :
    ∃ fss t, AllFail env (callRule env n) (T.leaves.take i) s fss t ∧ t.Resembles w := by
  induction h generalizing s with
  | leaf x s' => exact ⟨[], s, .nil s, hs'⟩
  | @node tried T rest s' t' w i h htry ih =>
    obtain ⟨below, rfl⟩ := hs'
    cases endsOf hs tried with
    | @failed fss t hall hrun =>
      rw [show Matcher.firstOf _ _ _ _ = _ from hrun below] at h
      cases h
      obtain ⟨fss', u, hall', huw⟩ := ih (hall.lands hs).1 ⟨_, rfl⟩
      obtain ⟨x, hx, -⟩ := htry.visits
      have hle : i ≤ T.leaves.length := Nat.le_of_lt (List.getElem?_eq_some_iff.mp hx).1
      refine ⟨fss ++ fss', u, ?_, huw⟩
      rw [leaves, leavesOf_append, leavesOf, List.take_length_add_append,
        List.take_append_of_le_length hle]
      exact hall.append hall'
    | matched heq hall hx hrun =>
      obtain ⟨fs, hr⟩ := hrun below
      rw [show Matcher.firstOf _ _ _ _ = _ from hr] at h
      cases h
    | halted heq hall hx hrun =>
      obtain ⟨fs, hr⟩ := hrun below
      rw [show Matcher.firstOf _ _ _ _ = _ from hr] at h
      cases h

end ChoiceTree

end

/-! ## Choices of a session -/

/-- A tree of choices comes to the same as one choice of its leaves, in every state from which a
session evaluates anything (`y` here) and with any limit. The first leaf that does not fail where
the tree began decides, and no later leaf is evaluated. If it matches, so do both, with its value
and its end, and they leave the state as it does, without the failures of the leaves in front of it.
If it is halted, so are both.

If all leaves fail, so do both. The single choice adds the failures of the leaves, in order, and its
own. The tree adds behind the leaves of each choice inside it a failure of that choice, at the same
position, and its own at the end. In all else their states agree. -/
theorem Session.choices_flatten (text : String) (config : Config) (g : Grammar) (k : Nat) (y : Expr)
    (ts : List ChoiceTree) (s : State) (h : Session.Evaluates text config g k y s) :
    let env := Env.ofText text config
    let run (x : Expr) := x.matcher env (callRule env k)
    let tree := ChoiceTree.node ts
    let single := Expr.choice tree.leaves
    (∃ fss t, Expr.AllFail env (callRule env k) tree.leaves s fss t ∧
      run single s = .ok .failed { t with
        failures := s.failures ++
          (fss.flatten ++ [Failure.mk s.cursor (.wrong single.label)]).toArray } ∧
      run tree.expr s = .ok .failed { t with
        failures := s.failures ++ (tree.report s.cursor fss).toArray }) ∨
    ∃ before x after fss t, tree.leaves = before ++ x :: after ∧
      Expr.AllFail env (callRule env k) before s fss t ∧ t.cursor = s.cursor ∧
      (∀ i w, tree.Tries env (callRule env k) s i w → i ≤ before.length) ∧
      ((∃ v u, run x t = .ok (.matched u.cursor v) u ∧
          run single s = .ok (.matched u.cursor v) { u with failures := s.failures } ∧
          run tree.expr s = .ok (.matched u.cursor v) { u with failures := s.failures }) ∨
        ∃ e u, run x t = .error e u ∧ run single s = .error e u ∧
          ∃ w, State.Resembles u w ∧ run tree.expr s = .error e w) := by
  intro env run tree single
  have hs : Sane env s := h.sane
  have hbefore : ∀ {before : List Expr} {x : Expr} {after fss t},
      tree.leaves = before ++ x :: after → Expr.AllFail env (callRule env k) before s fss t →
      (∀ u, run x t ≠ .ok .failed u) →
      ∀ i w, tree.Tries env (callRule env k) s i w → i ≤ before.length := by
    intro before x after fss t heq hall hx i w htry
    obtain ⟨fss', t', hall', -⟩ := htry.allFail hs ⟨s.failures, rfl⟩
    rw [heq] at hall'
    exact hall.length_le hx hall'
  cases ChoiceTree.ends (n := k) hs tree with
  | @failed fss t hall hrun =>
    exact .inl ⟨fss, t, hall, hall.run_choice_failed hs, hrun s.failures⟩
  | @matched before after x fss t u v heq hall hx hrun =>
    obtain ⟨fs, hr⟩ := hrun s.failures
    have hf := ((tree.expr.orderly_callRule env k).lands hs hr).2.2.2.2
    refine .inr ⟨before, x, after, fss, t, heq, hall, (hall.lands hs).2.1,
      hbefore heq hall fun w hw => ?_, .inl ⟨v, u, hx, ?_, ?_⟩⟩
    · rw [show run x t = _ from hx] at hw
      cases hw
    · rw [show single = _ from congrArg Expr.choice heq]
      exact hall.run_choice_matched hs hx
    · rw [show run tree.expr s = _ from hr]
      exact congrArg (fun fs => EStateM.Result.ok _ { u with failures := fs }) hf
  | @halted before after x fss t u e heq hall hx hrun =>
    refine .inr ⟨before, x, after, fss, t, heq, hall, (hall.lands hs).2.1,
      hbefore heq hall fun w hw => ?_, .inr ⟨e, u, hx, ?_, ?_⟩⟩
    · rw [show run x t = _ from hx] at hw
      cases hw
    · rw [show single = _ from congrArg Expr.choice heq]
      exact hall.run_choice_halted hs hx
    · obtain ⟨fs, hr⟩ := hrun s.failures
      exact ⟨{ u with failures := fs }, ⟨fs, rfl⟩, hr⟩

/-- The second of three letters matches, the first of the inner choice. The third is not tried. -/
theorem Session.choices_flatten_letters :
    let env := Env.ofText "b" { limit := some 0 }
    let s := State.start env {}
    let letter (c : Char) := Expr.charWhere (· == c)
    let inner : ChoiceTree := .node [.leaf (letter 'b'), .leaf (letter 'c')]
    let tree : ChoiceTree := .node [.leaf (letter 'a'), inner]
    let x := (letter 'a').orElse ((letter 'b').orElse (letter 'c'))
    Session.Evaluates "b" { limit := some 0 } {} 0 x s ∧ tree.expr = x ∧
      (∃ u, x.matcher env (callRule env 0) s = .ok (.matched 1 (.char 'b')) u ∧
        u.failures = s.failures) ∧
      ∀ i w, tree.Tries env (callRule env 0) s i w → i ≤ 1 := by
  intro env s letter inner tree x
  have hv : Session.Evaluates "b" { limit := some 0 } {} 0 x s := ⟨[], x, [], .here⟩
  have hx : tree.expr = x := by rw [ChoiceTree.expr_orElse, ChoiceTree.expr_orElse]; rfl
  obtain ⟨w, hr⟩ : ∃ w, tree.expr.matcher env (callRule env 0) s =
      .ok (.matched 1 (.char 'b')) w := ⟨_, rfl⟩
  have hflat := Session.choices_flatten "b" { limit := some 0 } {} 0 x [.leaf (letter 'a'), inner] s
    hv
  rcases hflat with ⟨fss, t, -, -, hfail⟩ | ⟨before, y, after, fss, t, heq, hall, -, htries, hend⟩
  · have hcontra := hr.symm.trans hfail
    cases hcontra
  · have hfirst : Expr.AllFail env (callRule env 0) [letter 'a'] s
        [[Failure.mk 0 (.wrong "Character")]] _ := .cons rfl rfl (.nil _)
    have hbefore : before = ([letter 'a'] ++ letter 'b' :: [letter 'c']).take before.length := by
      rw [show [letter 'a'] ++ letter 'b' :: [letter 'c'] = before ++ y :: after from heq,
        List.take_left]
    rw [hbefore] at hall
    have hlen : before.length ≤ 1 := hfirst.length_le (fun u hu => by cases hu) hall
    rcases hend with ⟨v, u, -, -, hu⟩ | ⟨e, u, -, -, w', -, hu⟩
    · obtain ⟨-, hw⟩ := EStateM.Result.ok.inj (hr.symm.trans hu)
      rw [hx] at hr
      exact ⟨hv, hx, ⟨w, hr, by rw [hw]⟩, fun i t htry => (htries i t htry).trans hlen⟩
    · have hcontra := hr.symm.trans hu
      cases hcontra

end Packrat
