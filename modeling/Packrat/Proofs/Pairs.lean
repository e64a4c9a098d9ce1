import Packrat.Proofs.Edge
import Packrat.Proofs.Frame
import Packrat.Proofs.Repetition
import Packrat.Proofs.Sequence

/-!
# Two expressions in a row

`Expr.pair` matches one expression behind another and lists their two values.

What two alternatives begin with can be taken out of the choice (`Session.left_factoring`). With the
common part in both alternatives it is evaluated again where what follows it in the first one has
failed. By then more is remembered, and the limit may have been hit, but it comes to the same end
and changes nothing any more (`Expr.matcher_once_more`). What follows it is then evaluated in the
same state as in the factored form, up to the failures and the events.

A repetition can be split at its least number (`Session.repetition_splits`). As long as matches
consume something they can be followed one by one, and behind the first of them the repetition goes
on like one with a smaller count (`Matcher.Progresses.repeated_rest`).
-/

namespace Packrat

/-- Matches `x` and then `y`; the value is the list of the two values. -/
def Expr.pair (x y : Expr) : Expr :=
  .sequence .val [x.kept, y.kept] { apply := (listKept [x.kept, y.kept]).build }

section

variable {env : Env} {call : RuleId → Matcher} {k n : Nat} {s t u w : State} {x y : Expr}

namespace Expr

theorem build_pair (x y : Expr) (v w : Value) :
    (listKept [x.kept, y.kept]).build [some ⟨x.type, v⟩, some ⟨y.type, w⟩] =
      .ok (.list [v, w]) := by
  have hlen : [v, w].length = [x.kept, y.kept].length := rfl
  exact Recipe.build_listKept hlen

/-- A pair runs its second part where the first one has ended. -/
theorem run_pair (x y : Expr) (s : State) :
    (x.pair y).matcher env call s = match x.matcher env call s with
      | .ok (.matched _ v) t =>
        match y.matcher env call t with
        | .ok (.matched _ w) u => .ok (.matched u.cursor (.list [v, w])) (u.cutBack s.failures.size)
        | .ok .failed u => .ok .failed ((u.moveTo env s.cursor).record (.wrong (x.pair y).label))
        | .error h u => .error h u
      | .ok .failed t => .ok .failed ((t.moveTo env s.cursor).record (.wrong (x.pair y).label))
      | .error h t => .error h t := by
  change Matcher.sequence env _ (stepMatchers env call [x.kept, y.kept]) _ s = _
  rw [Matcher.run_sequence]
  simp only [kept, stepMatchers, Matcher.run_runSteps_cons, Matcher.run_runSteps_nil]
  cases x.matcher env call s with
  | error h t => rfl
  | ok o t =>
    cases o with
    | failed => rfl
    | matched stop v =>
      dsimp only
      cases y.matcher env call t with
      | error h u => rfl
      | ok o' u =>
        cases o' with
        | failed => rfl
        | matched stop' w =>
          have hbuild := build_pair x y v w
          simp only [kept] at hbuild
          simp only [Option.map_some, hbuild]
          rfl

/-- A choice between two runs the second one from the start, on top of the failures of the first. -/
theorem run_orElse (x y : Expr) (s : State) :
    (x.orElse y).matcher env call s = match x.matcher env call s with
      | .ok (.matched stop v) t => .ok (.matched stop v) (t.cutBack s.failures.size)
      | .ok .failed t =>
        match y.matcher env call (t.moveTo env s.cursor) with
        | .ok (.matched stop v) u => .ok (.matched stop v) (u.cutBack s.failures.size)
        | .ok .failed u =>
          .ok .failed ((u.moveTo env s.cursor).record (.wrong (x.orElse y).label))
        | .error h u => .error h u
      | .error h t => .error h t := by
  change Matcher.choice env _ (matchers env call [x, y]) s = _
  rw [Matcher.run_choice]
  simp only [matchers, Matcher.run_firstOf_cons, Matcher.run_firstOf_nil]
  cases x.matcher env call s with
  | error h t => rfl
  | ok o t =>
    cases o with
    | matched stop v => rfl
    | failed =>
      dsimp only
      cases y.matcher env call (t.moveTo env s.cursor) with
      | error h u => rfl
      | ok o' u => cases o' <;> rfl

theorem matcher_later (x : Expr) (hs : Sane env s) (hz : Sized env s) {o : Outcome Value}
    (h : x.matcher env (callRule env n) s = .ok o t) : Later env s t :=
  ((Carried.kept (kept_later env n)).matcher x h hs hz).2.1

/-- An evaluation comes to the same again in any later state, back at its start, and then leaves
that state as it is, up to the cursor, the failures and the events. -/
theorem matcher_once_more (hmem : env.memoizing = true) (x : Expr) (hs : Sane env s)
    (hz : Sized env s) {o : Outcome Value} (h : x.matcher env (callRule env n) s = .ok o t)
    (hu : Later env t u) (htu : Restores t u) (hw : w.bare = (u.moveTo env s.cursor).bare) :
    ∃ r, x.matcher env (callRule env n) w = .ok o r ∧ r.bare = (u.moveTo env t.cursor).bare := by
  have hst := (Carried.restores env n).matcher x h
  have htend : t.cursor ≤ env.length := ((x.orderly_callRule env n).lands hs h).1.cursor
  have hstill : Still u w :=
    ⟨(congrArg State.grammar hw :), (congrArg State.memo hw :), (congrArg State.overflowed hw :)⟩
  have hstart : Rerun u s.failures w.failures s w := by
    refine ⟨⟨⟨?_, #[], by simp, by simp⟩, ?_⟩, ?_, hstill⟩
    · exact (congrArg State.cursor hw).trans (moveTo_start hs.cursor u)
    · exact (congrArg State.skipping hw).trans (hst.trans htu).skipping
    · exact (congrArg State.depth hw).trans (hst.trans htu).depth
  rw [x.matcher_eq_run] at h
  obtain ⟨r, hr, htr⟩ := (x.linked (.refl env) s w hstart.toSynced).again
    (fun key => answer_again hmem _ key u) (x.linked_self env s) hs hz hstart h hu
  refine ⟨r, by rw [x.matcher_eq_run]; exact hr, State.bare_ext ?_ ?_ ?_ ?_ ?_ ?_⟩
  · exact htr.still.grammar
  · exact htr.still.memo
  · exact htr.cursor.trans (moveTo_start htend u).symm
  · exact htr.skipping.trans htu.skipping.symm
  · exact htr.depth.trans htu.depth.symm
  · exact htr.still.overflowed

end Expr

end

/-! ## Factoring -/

theorem Result.Related.exists_of_ok {α β : Type} {A : α → β → Prop} {R : State → State → Prop}
    {r : Result α} {r' : Result β} {a : α} {s : State} (h : Related A R r r') (hr : r = .ok a s) :
    ∃ b t, r' = .ok b t ∧ A a b ∧ R s t := by
  subst hr
  cases h with
  | ok hab hst => exact ⟨_, _, rfl, hab, hst⟩

/-- What two alternatives begin with can be taken out of the choice, in every state from which a
session evaluates anything (`x` here) and with any limit. Both forms match, with the same value and
the same end, or both fail, or both are halted in the same way. They leave the same state, with the
same outcomes remembered and the limit hit in both or in none; only the failures and the events may
differ. -/
theorem Session.left_factoring (text : String) (blanks : List Char) (limit : Option Nat)
    (g : Grammar) (k : Nat) (x a b c : Expr) (s : State)
    (h : Session.Evaluates text { blanks, limit } g k x s) :
    let env := Env.ofText text { blanks, limit }
    let run (y : Expr) := y.matcher env (callRule env k)
    Result.Related Eq (fun t u => t.bare = u.bare)
      (run ((a.pair b).orElse (a.pair c)) s) (run (a.pair (b.orElse c)) s) := by
  intro env run
  obtain ⟨hs, hz⟩ := h.kept (kept_sized _) fun _ _ hmem => Session.sized_of_mem_moments hmem
  have hunfactored : run ((a.pair b).orElse (a.pair c)) s = _ := Expr.run_orElse ..
  have hfactored : run (a.pair (b.orElse c)) s = _ := Expr.run_pair ..
  rw [hunfactored, hfactored, Expr.run_pair]
  cases ha : a.matcher env (callRule env k) s with
  | error e t => exact .error e rfl
  | ok o t =>
    cases o with
    | failed =>
      obtain ⟨r, hr, hbare⟩ := a.matcher_once_more rfl hs hz ha (.refl env t) ⟨rfl, rfl⟩
        (w := ((t.moveTo env s.cursor).record (.wrong (a.pair b).label)).moveTo env s.cursor) rfl
      dsimp only
      rw [Expr.run_pair, hr]
      exact .ok rfl (congrArg (State.moveTo · env s.cursor) hbare)
    | matched stop v =>
      have ht : Sane env t := ((a.orderly_callRule env k).lands hs ha).1
      dsimp only
      rw [Expr.run_orElse]
      cases hb : b.matcher env (callRule env k) t with
      | error e u => exact .error e rfl
      | ok o' u =>
        cases o' with
        | matched stop' w => exact .ok rfl rfl
        | failed =>
          -- the first alternative gives up, and the second one begins with the common part again
          obtain ⟨r, hr, hbare⟩ := a.matcher_once_more rfl hs hz ha
            (b.matcher_later ht (sized_of_matcher hs hz ha) hb)
            ((Carried.restores env k).matcher b hb)
            (w := ((u.moveTo env s.cursor).record (.wrong (a.pair b).label)).moveTo env s.cursor)
            rfl
          dsimp only
          rw [Expr.run_pair, hr]
          dsimp only
          have hc := (Expr.local_run env k c).related hbare
          generalize c.matcher env (callRule env k) r = after at hc ⊢
          generalize c.matcher env (callRule env k) (u.moveTo env t.cursor) = factored at hc ⊢
          cases hc with
          | error e hst => exact .error e hst
          | @ok o _ _ _ ho hst =>
            cases ho
            cases o with
            | matched stop w =>
              have hstop := congrArg State.cursor hst
              exact .ok (congrArg (Outcome.matched · (Value.list [v, w])) hstop) hst
            | failed => exact .ok rfl (congrArg (State.moveTo · env s.cursor) hst)

/-- Behind a digit the first alternative runs into the limit. The second one finds the digit
remembered, and is what the factored form comes to. -/
theorem Session.left_factoring_digit :
    let env := Env.ofText "7x" { limit := some 2 }
    let s := State.start env .digits
    let run (y : Expr) := y.matcher env (callRule env 2)
    let digit := Expr.rule ⟨0, "digit"⟩
    let loop := Expr.rule ⟨1, "loop"⟩
    Session.Evaluates "7x" { limit := some 2 } .digits 2 digit s ∧
      ∃ o t, run (digit.pair (loop.orElse (.charWhere (· == 'x')))) s = .ok o t ∧
        o.toOption.map Value.display = some "7x" ∧ t.overflowed = true := by
  intro env s run digit loop
  have hv : Session.Evaluates "7x" { limit := some 2 } .digits 2 digit s := ⟨[], digit, [], .here⟩
  have hends : Result.meets (fun o t => o.toOption.map Value.display = some "7x" && t.overflowed)
      (run ((digit.pair loop).orElse (digit.pair (.charWhere (· == 'x')))) s) = true := by
    decide +kernel
  obtain ⟨o, t, hr, ht⟩ := Result.exists_of_meets hends
  rw [Bool.and_eq_true, decide_eq_true_iff] at ht
  have hrel := Session.left_factoring "7x" defaultBlanks (some 2) .digits 2 digit digit loop
    (.charWhere (· == 'x')) s hv
  obtain ⟨o', u, hu, rfl, hbare⟩ := hrel.exists_of_ok hr
  exact ⟨hv, o, u, hu, ht.1, (congrArg State.overflowed hbare).symm.trans ht.2⟩

/-! ## Splitting -/

/-- As long as `m` matches from `s` on, each match consumes something. -/
def Matcher.Progresses (m : Matcher) (s : State) : Prop :=
  ∀ vs t v u, m.Strides s vs t → m t = .ok (.matched u.cursor v) u → u.cursor ≠ t.cursor

/-- What a count leaves open when its least number is reached. -/
def Count.rest (c : Count) : Count := ⟨0, c.most.map (· - c.least), by simp⟩

/-- Two matches with one end and with related values, or two failures. -/
inductive Outcome.Related (R : Value → Value → Prop) : Outcome Value → Outcome Value → Prop where
  | matched (stop : Nat) {v w : Value} (h : R v w) : Related R (.matched stop v) (.matched stop w)
  | failed : Related R .failed .failed

section

variable {env : Env} {total : Prop} {count : Count} {m : Matcher} {s t u : State}
  {vs ws : List Value} {k : Nat} {x : Expr}

namespace Matcher

theorem Strides.append (h : Strides m s vs t) (h' : Strides m t ws u) :
    Strides m s (vs ++ ws) u := by
  induction h with
  | start s => exact h'
  | next h hgo _ ih => exact .next h hgo (ih h')

/-- Matches in a row leave the failures that they found. -/
theorem Strides.failures (hm : m.Orderly env total) (h : Strides m s vs t) (hs : Sane env s) :
    t.failures = s.failures := by
  induction h with
  | start s => rfl
  | next h _ _ ih =>
    obtain ⟨ht, hland⟩ := hm.lands hs h
    exact (ih ht).trans hland.2.2.2

/-- A repetition that fails or is halted because an attempt is, before there are enough matches. -/
theorem Strides.repeated_short (hm : m.Orderly env total) (h : Strides m s vs t) (hs : Sane env s)
    (label : String) (count : Count) (hshort : vs.length < count.least) :
    (m t = .ok .failed u → repeated env label count m s =
      .ok .failed ((u.moveTo env s.cursor).record (.tooFew label vs.length))) ∧
    ∀ e, m t = .error e u → repeated env label count m s = .error e u := by
  have hopen : ∀ b ∈ count.most, vs.length < b := fun b hb =>
    Nat.lt_of_lt_of_le hshort (count.ordered b hb)
  refine ⟨fun hu => ?_, fun e hu => h.repeated_halted hm hs label hu hopen⟩
  rw [h.repeated_open hm hs label hopen hu, if_neg (Nat.not_le_of_lt hshort)]

theorem progresses_char (hs : Sane env s) (test : Hook Char Bool) :
    (char env test).Progresses s := by
  intro vs t v u hst hu
  have hm : (char env test).Orderly env True := orderly_char test
  exact (char_lt (hst.sane hm hs) hu).ne'

/-- Progress goes on behind each match. -/
theorem Progresses.after (h : m.Progresses s) (hst : Strides m s vs t) : m.Progresses t :=
  fun _ u v w hst' hw => h _ u v w (hst.append hst') hw

/-- There are as many matches as wanted, or an attempt before that fails or is halted. -/
theorem Progresses.exists_strides (h : m.Progresses s) (hm : m.Orderly env total)
    (hs : Sane env s) (n : Nat) :
    (∃ vs t, Strides m s vs t ∧ vs.length = n) ∨
      ∃ vs t, Strides m s vs t ∧ vs.length < n ∧
        ((∃ u, m t = .ok .failed u) ∨ ∃ e u, m t = .error e u) := by
  obtain ⟨vs, t, hst, -, hend⟩ :=
    Strides.exists_end hm hs fun b (_ : b ∈ (Count.exactly n).most) => Nat.zero_le b
  rw [Nat.zero_add] at hend
  rcases hend with hfull | ⟨hopen, ⟨v, u, hu, hstall⟩ | hstop⟩
  · exact .inl ⟨vs, t, hst, (Option.some.inj hfull).symm⟩
  · exact absurd hstall (h vs t v u hst hu)
  · exact .inr ⟨vs, t, hst, hopen n rfl, hstop⟩

/-- Behind as many matches as a count wants at least, its repetition goes on like the one of the
rest. -/
theorem Progresses.repeated_rest (h : m.Progresses s) (hm : m.Orderly env total) (hs : Sane env s)
    (label label' : String) (hst : Strides m s vs t) (hlen : vs.length = count.least) :
    Result.Related
      (Outcome.Related fun v w => ∃ items, v = .list (vs ++ items) ∧ w = .list items)
      State.Resembles (repeated env label count m s) (repeated env label' count.rest m t) := by
  have ht : Sane env t := hst.sane hm hs
  obtain ⟨ws, u, hst', -, hend⟩ :=
    Strides.exists_end hm ht fun b (_ : b ∈ count.rest.most) => Nat.zero_le b
  rw [Nat.zero_add] at hend
  have hall := hst.append hst'
  have hwhole : (vs ++ ws).length = count.least + ws.length := by rw [List.length_append, hlen]
  rcases hend with hfull | ⟨hopen, hstop⟩
  · obtain ⟨b, hb, hws⟩ := Option.map_eq_some_iff.mp hfull
    have hle := count.ordered b hb
    have hfull' : count.most = some (vs ++ ws).length := by
      rw [hb, hwhole, ← hws]
      congr 1
      omega
    rw [hall.repeated_full hm hs label hfull', hst'.repeated_full hm ht label' hfull]
    exact .ok (.matched _ ⟨ws, rfl, rfl⟩) ⟨_, rfl⟩
  · have hopen' : ∀ b ∈ count.most, (vs ++ ws).length < b := by
      intro b hb
      have := hopen (b - count.least) (Option.map_eq_some_iff.mpr ⟨b, hb, rfl⟩)
      rw [hwhole]
      omega
    rcases hstop with ⟨v, w, hw, hstall⟩ | ⟨w, hw⟩ | ⟨e, w, hw⟩
    · -- progress rules out that a match stalls
      exact absurd hstall (h.after hst ws u v w hst' hw)
    · rw [hall.repeated_open hm hs label hopen' hw, if_pos (by omega),
        hst'.repeated_open hm ht label' hopen hw,
        if_pos (show count.rest.least ≤ ws.length from Nat.zero_le _)]
      exact .ok (.matched _ ⟨ws, rfl, rfl⟩) ⟨_, rfl⟩
    · rw [hall.repeated_halted hm hs label hw hopen', hst'.repeated_halted hm ht label' hw hopen]
      exact .error e ⟨_, rfl⟩

end Matcher

/-- What comes to the same from `s` as `y` does behind a match of `x` comes to the same as both in a
row. -/
theorem Expr.related_pair {y z : Expr} {R R' : Value → Value → Prop} {stop : Nat} {v : Value}
    (hs : Sane env s) (hx : x.matcher env (callRule env k) s = .ok (.matched stop v) t)
    (h : Result.Related (Outcome.Related R) State.Resembles (z.matcher env (callRule env k) s)
      (y.matcher env (callRule env k) t)) (hR : ∀ a w, R a w → R' a (.list [v, w])) :
    Result.Related (Outcome.Related R') State.Resembles (z.matcher env (callRule env k) s)
      ((x.pair y).matcher env (callRule env k) s) := by
  have hland := fun o u => (z.orderly_callRule env k).lands hs (o := o) (t := u)
  rw [run_pair, hx]
  dsimp only
  generalize z.matcher env (callRule env k) s = r at h hland ⊢
  generalize y.matcher env (callRule env k) t = r' at h ⊢
  cases h with
  | error e hst => exact .error e hst
  | @ok _ _ u _ ho hst =>
    obtain ⟨fs, rfl⟩ := hst
    obtain ⟨-, hland⟩ := hland _ _ rfl
    cases ho with
    | matched stop' hvw =>
      obtain ⟨rfl, -⟩ := hland
      exact .ok (.matched _ (hR _ _ hvw)) ⟨_, rfl⟩
    | failed =>
      have hback : u.moveTo env s.cursor = u := by
        rw [State.moveTo, Nat.min_eq_left hs.cursor, ← hland.1]
      have hsame : State.Resembles (u.moveTo env s.cursor)
          ((({ u with failures := fs }.moveTo env s.cursor)).record (.wrong (x.pair y).label)) :=
        ⟨_, rfl⟩
      rw [hback] at hsame
      exact .ok .failed hsame

end

/-- A repetition can be split where its least number is reached, in every state from which a session
evaluates anything (`y` here) and with any limit, if its part never matches without consuming
something. Then it comes to the same as the least number of its part with any further ones behind
them: both match, with the same end and the same items in a row, or both fail, or both are halted in
the same way. Their states differ at most in the failures.

In particular, one or more are one with any number behind it. -/
theorem Session.repetition_splits (text : String) (config : Config) (g : Grammar) (k : Nat)
    (x y : Expr) (count : Count) (s : State) (h : Session.Evaluates text config g k y s)
    (hx : (x.matcher (.ofText text config) (callRule (.ofText text config) k)).Progresses s) :
    let run (z : Expr) := z.matcher (.ofText text config) (callRule (.ofText text config) k)
    Result.Related
      (Outcome.Related fun v w =>
        ∃ items items', v = .list (items ++ items') ∧ w = .list [.list items, .list items'])
      State.Resembles (run (x.repeated count) s)
      (run ((x.exactly count.least).pair (x.repeated count.rest)) s) ∧
    Result.Related
      (Outcome.Related fun v w =>
        ∃ item items, v = .list (item :: items) ∧ w = .list [item, .list items])
      State.Resembles (run x.oneOrMore s) (run (x.pair x.zeroOrMore) s) := by
  intro run
  have hs : Sane (.ofText text config) s := h.sane
  have hm := x.orderly_callRule (.ofText text config) k
  refine ⟨?_, ?_⟩
  · rcases hx.exists_strides hm hs count.least with
      ⟨vs, t, hst, hlen⟩ | ⟨vs, t, hst, hshort, hstop⟩
    · have hleast : run (x.exactly count.least) s = _ :=
        hst.repeated_full hm hs _ (congrArg some hlen.symm)
      rw [State.cutBack_size (hst.failures hm hs)] at hleast
      refine Expr.related_pair hs hleast (hx.repeated_rest hm hs _ _ hst hlen) ?_
      rintro v w ⟨items, rfl, rfl⟩
      exact ⟨vs, items, rfl, rfl⟩
    · -- the least number is not reached, in the whole as in its first part
      have hwhole := fun u =>
        hst.repeated_short (u := u) hm hs (x.repeated count).label count hshort
      have hleast := fun u =>
        hst.repeated_short (u := u) hm hs (x.exactly count.least).label (.exactly _) hshort
      have hpair : run ((x.exactly count.least).pair (x.repeated count.rest)) s = _ :=
        Expr.run_pair ..
      rcases hstop with ⟨u, hu⟩ | ⟨e, u, hu⟩
      · rw [show run (x.repeated count) s = _ from (hwhole u).1 hu, hpair,
          show Expr.matcher _ _ (x.exactly count.least) s = _ from (hleast u).1 hu]
        exact .ok .failed ⟨_, rfl⟩
      · rw [show run (x.repeated count) s = _ from (hwhole u).2 e hu, hpair,
          show Expr.matcher _ _ (x.exactly count.least) s = _ from (hleast u).2 e hu]
        exact .error e ⟨_, rfl⟩
  · rcases hx.exists_strides hm hs 1 with ⟨vs, t, hst, hlen⟩ | ⟨vs, t, hst, hshort, hstop⟩
    · have hrest := hx.repeated_rest hm hs x.oneOrMore.label x.zeroOrMore.label hst
        (show vs.length = Count.oneOrMore.least from hlen)
      obtain ⟨v, rfl⟩ := List.length_eq_one_iff.mp hlen
      cases hst with
      | next hfirst _ hnil =>
        cases hnil
        refine Expr.related_pair hs hfirst hrest ?_
        rintro v' w ⟨items, rfl, rfl⟩
        exact ⟨v, items, rfl, rfl⟩
    · have hwhole := fun u =>
        hst.repeated_short (u := u) hm hs x.oneOrMore.label .oneOrMore hshort
      have hpair : run (x.pair x.zeroOrMore) s = _ := Expr.run_pair ..
      obtain rfl : vs = [] := List.length_eq_zero_iff.mp (by omega)
      cases hst
      rcases hstop with ⟨u, hu⟩ | ⟨e, u, hu⟩
      · rw [show run x.oneOrMore s = _ from (hwhole u).1 hu, hpair, hu]
        exact .ok .failed ⟨_, rfl⟩
      · rw [show run x.oneOrMore s = _ from (hwhole u).2 e hu, hpair, hu]
        exact .error e ⟨_, rfl⟩

/-- One to four digits, of which there are three. -/
theorem Session.repetition_splits_digits :
    let env := Env.ofText "778x" { limit := some 0 }
    let s := State.start env {}
    let run (y : Expr) := y.matcher env (callRule env 0)
    let digit := Expr.charWhere Char.isDigit
    let count : Count := ⟨1, some 4, fun _ h => by cases h; decide⟩
    Session.Evaluates "778x" { limit := some 0 } {} 0 digit s ∧ (run digit).Progresses s ∧
      ∃ items items' t, run ((digit.exactly 1).pair (digit.repeated count.rest)) s =
        .ok (.matched 3 (.list [.list items, .list items'])) t ∧ (items ++ items').length = 3 := by
  intro env s run digit count
  have hv : Session.Evaluates "778x" { limit := some 0 } {} 0 digit s := ⟨[], digit, [], .here⟩
  have hx : (run digit).Progresses s := Matcher.progresses_char hv.sane _
  obtain ⟨hsplit, -⟩ := Session.repetition_splits "778x" { limit := some 0 } {} 0 digit digit count
    s hv hx
  obtain ⟨w, hw⟩ : ∃ w, run (digit.repeated count) s =
      .ok (.matched 3 (.list [.char '7', .char '7', .char '8'])) w := ⟨_, rfl⟩
  obtain ⟨o, t, ht, ho, -⟩ := hsplit.exists_of_ok hw
  cases ho with
  | matched stop hjoin =>
    obtain ⟨items, items', heq, rfl⟩ := hjoin
    refine ⟨hv, hx, items, items', t, ht, ?_⟩
    rw [← Value.list.inj heq]
    rfl

end Packrat
