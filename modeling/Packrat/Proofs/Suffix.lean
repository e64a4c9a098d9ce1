import Packrat.Proofs.Coupling
import Packrat.Proofs.Driver
import Packrat.Proofs.Extraction
import Packrat.Proofs.LeftRecursion

/-!
# What stands behind the cursor

An evaluation looks at the text from the cursor on only. So the same text behind another one gives
the same outcome, and everything that has a position is found that much further on
(`Expr.evaluate_behind`). The exception are expressions that ask for the position itself.

A root rule that skips blanks therefore does not care about blanks in front: behind them its body
begins as it would without them (`Grammar.parse_leading_blanks`).
-/

namespace Packrat

/-- The expression nowhere asks for a position. -/
def Expr.Positionless (x : Expr) : Prop := ¬ Expr.position.Occurs x

/-- No body of the grammar asks for a position. -/
def Grammar.Positionless (g : Grammar) : Prop := ∀ r x, g.Gives r x → x.Positionless

/-- Results that agree, the second one that much further on: the same verdict and value, failures
with the same causes, and as many entries remembered; or the same halt. -/
inductive Moved (d : Nat) : Result (Outcome Value) → Result (Outcome Value) → Prop where
  | ended {o : Outcome Value} {s t : State} (cursor : t.cursor = s.cursor + d)
      (failures : t.failures = s.failures.map (.shift d)) (memo : t.memo.size = s.memo.size) :
      Moved d (.ok o s) (.ok (o.shift d) t)
  | halted (h : Halt) (s t : State) : Moved d (.error h s) (.error h t)

/-- Runs of the grammar `g`, the second one with more text behind it. -/
def Coupling.further (g : Grammar) (d : Nat) : Coupling where
  ahead := d
  modes := Eq
  history g₁ _ g₂ _ := g₂ = g₁ ∧ g.Builds g₁
  admits x := x ≠ .position

/-! ## Grammars without positions -/

namespace Grammar

/-- A grammar whose bodies do not depend on what is named stands for the same while they are
built. -/
theorem Builds.upholds {g g' : Grammar} (hmeans : ∀ r, ∃ meaning, (g.body r).Means meaning)
    (h : g.Builds g') : g.Upholds g' := by
  induction h with
  | refl => exact .refl g
  | @tail g₁ g₂ _ hstep ih =>
    obtain ⟨r, build, hb, rfl⟩ := hstep
    obtain ⟨meaning, hm⟩ := hmeans r
    have hm₁ := ih.means r meaning hm
    rw [hb] at hm₁
    obtain ⟨result, -, hall⟩ := hm₁
    have hresult := hall g₁.handles
    unfold Matcher.built
    cases ha : build.apply g₁.handles with
    | mk result' handles =>
      rw [ha] at hresult
      cases result' with
      | error f => exact ⟨ih.skipsBlanks, ih.means⟩
      | ok x => exact ih.built hb (fun handles => (hall handles).trans hresult.symm) handles

theorem means_of_gives {g : Grammar} {r : RuleId} {x : Expr}
    (hmeans : ∀ r, ∃ meaning, (g.body r).Means meaning) (h : g.Gives r x) :
    (g.body r).Means (some (.ok x)) := by
  obtain ⟨g', hbuilds, hx⟩ := h
  obtain ⟨meaning, hm⟩ := hmeans r
  have hx' : (g'.body r).Means (some (.ok x)) := by rw [hx]; rfl
  rw [hx'.unique ((hbuilds.upholds hmeans).means r meaning hm)]
  exact hm

/-- If bodies do not depend on what is named, it is enough to look at each of them. -/
theorem positionless_of_means {g : Grammar} (hmeans : ∀ r, ∃ meaning, (g.body r).Means meaning)
    (h : ∀ r x, (g.body r).Means (some (.ok x)) → x.Positionless) : g.Positionless :=
  fun r x hx => h r x (means_of_gives hmeans hx)

end Grammar

section

variable {g : Grammar} {env env' : Env} {n d : Nat} {s : State} {before text : String}
  {config : Config}

/-! ## Texts -/

theorem Env.skipBlanksFrom_ahead (hchar : ∀ p, env'.text[p + d]? = env.text[p]?)
    (hblanks : env'.blanks = env.blanks) :
    ∀ p, env'.skipBlanksFrom (p + d) n = env.skipBlanksFrom p n + d := by
  induction n with
  | zero => exact fun p => rfl
  | succ n ih =>
    intro p
    rw [skipBlanksFrom, skipBlanksFrom, hchar, hblanks]
    cases env.text[p]? with
    | none => rfl
    | some ch =>
      dsimp only
      split
      · rw [Nat.add_right_comm]
        exact ih (p + 1)
      · rfl

theorem Env.getElem?_behind (before text : String) (config : Config) (p : Nat) :
    (ofText (before ++ text) config).text[p + before.length]? = (ofText text config).text[p]? := by
  simp only [ofText, String.toList_append, List.getElem?_toArray, ← String.length_toList]
  rw [List.getElem?_append_right (Nat.le_add_left ..), Nat.add_sub_cancel]

theorem Env.getElem?_before {p : Nat} (hp : p < before.length) :
    (ofText (before ++ text) config).text[p]? = before.toList[p]? := by
  simp only [ofText, String.toList_append, List.getElem?_toArray]
  exact List.getElem?_append_left (by rw [String.length_toList]; exact hp)

theorem Env.skipBlanks_behind (before text : String) (config : Config) (p : Nat) :
    (ofText (before ++ text) config).skipBlanks (p + before.length) =
      (ofText text config).skipBlanks p + before.length := by
  have hleft : (ofText (before ++ text) config).length - (p + before.length) =
      (ofText text config).length - p := by
    rw [length_ofText, length_ofText, String.length_append]
    omega
  rw [skipBlanks, skipBlanks, hleft]
  exact skipBlanksFrom_ahead (getElem?_behind before text config) rfl p

theorem Coupling.admits_further {x : Expr} (h : x.Positionless) : (further g d).Admits x := by
  rintro y hy rfl
  exact h hy

/-- A text goes with itself behind another one. -/
theorem Coupling.lawful_further (hg : g.Positionless) (before text : String) (config : Config) :
    (further g before.length).Lawful (.ofText text config)
      (.ofText (before ++ text) config) where
  char := Env.getElem?_behind before text config
  length := by
    rw [Env.length_ofText, Env.length_ofText, String.length_append, Nat.add_comm]
    rfl
  limit := rfl
  memoizing := rfl
  blanks := by
    rintro on _ p rfl
    cases on with
    | false => rfl
    | true => exact Env.skipBlanks_behind before text config p
  mode := by
    rintro g₁ _ _ _ r ⟨rfl, -⟩
    rfl
  emit _ _ _ _ _ h _ := h
  call _ _ _ _ _ _ _ h _ _ := h
  body := by
    rintro r s t ⟨hst, hbuilds⟩
    refine related_body? (by rw [hst]) (fun x u hx => ?_) ⟨hst, hbuilds⟩ fun build hb => ?_
    · exact admits_further (hg r x (hbuilds.gives_of_body? hx))
    · rw [hst]
      exact ⟨rfl, rfl, hbuilds.tail ⟨r, build, hb, rfl⟩⟩
  position h := absurd rfl h

/-- Blanks in front are skipped. -/
theorem Env.skipBlanks_leading {leading : String} (h : ∀ ch ∈ leading.toList, ch ∈ config.blanks)
    (text : String) : (ofText (leading ++ text) config).skipBlanks 0 =
      (ofText text config).skipBlanks 0 + leading.length := by
  have hlength := Env.length_ofText (leading ++ text) config
  rw [String.length_append] at hlength
  have hstep : ∀ p, p ≤ leading.length → (ofText (leading ++ text) config).skipBlanks 0 =
      (ofText (leading ++ text) config).skipBlanks p := by
    intro p hp
    induction p with
    | zero => rfl
    | succ p ih =>
      have hp' : p < leading.toList.length := by rw [String.length_toList]; exact hp
      have hchar : (ofText (leading ++ text) config).text[p]? = some leading.toList[p] := by
        rw [Env.getElem?_before hp, List.getElem?_eq_getElem hp']
      have hblank : (ofText (leading ++ text) config).blanks.contains leading.toList[p] = true :=
        List.elem_eq_true_of_mem (h _ (List.getElem_mem hp'))
      have hleft : (ofText (leading ++ text) config).length - p =
          ((ofText (leading ++ text) config).length - (p + 1)) + 1 := by omega
      rw [ih (by omega), skipBlanks, hleft, skipBlanksFrom, hchar]
      dsimp only
      rw [if_pos hblank]
      rfl
  have hbehind := skipBlanks_behind leading text config 0
  rw [Nat.zero_add] at hbehind
  rw [hstep leading.length (Nat.le_refl _), hbehind]

/-! ## Enough room -/

/-- The room of an evaluation is enough unless no room is. -/
theorem Expr.exhausted_evaluate_iff (x : Expr) (hs : Sane env s) (hm : MemoSound env s) :
    Result.Exhausted (x.evaluate env s) ↔ x.Diverges env s := by
  cases hlim : env.limit with
  | none => exact exhausted_iff_diverges hlim x hs hm
  | some limit =>
    have hend := x.evaluate_not_exhausted hlim hs
    exact ⟨fun h => absurd h hend, fun h => absurd (h (headroom env s.grammar)) hend⟩

/-- An evaluation that is not exhausted in some room has enough room by itself. -/
theorem Expr.evaluate_eq_of_room (x : Expr) (hs : Sane env s) (hm : MemoSound env s)
    (h : ¬ Result.Exhausted (x.matcher env (callRule env n) s)) :
    x.evaluate env s = x.matcher env (callRule env n) s := by
  have hend : ¬ Result.Exhausted (x.evaluate env s) := by
    rw [x.exhausted_evaluate_iff hs hm]
    exact fun hdiv => h (hdiv n)
  rcases Nat.le_total n (headroom env s.grammar) with hle | hle
  · rw [exhausted_matcher_iff] at h
    rw [Expr.evaluate_eq_run, x.matcher_eq_run, ← answer]
    exact Dialogue.run_mono env hle _ h
  · exact (x.matcher_eq_of_not_exhausted hend hle).symm

end

/-! ## Evaluations -/

theorem Result.Related.exhausted_iff {α β : Type} {A : α → β → Prop} {R : State → State → Prop}
    {r : Result α} {r' : Result β} (h : Related A R r r') : Exhausted r ↔ Exhausted r' := by
  cases h with
  | ok hab hst => exact ⟨nofun, nofun⟩
  | error e hst => cases e <;> exact Iff.rfl

namespace Coupling

theorem moved_of_related {g : Grammar} {d : Nat} {r r' : Result (Outcome Value)}
    (h : Result.Related (fun o o' => o' = o.shift d) (further g d).States r r') : Moved d r r' := by
  cases h with
  | @ok o _ s t ho hst =>
    subst ho
    refine .ended hst.cursor hst.failures ?_
    rw [hst.memo, Memo.size_shift]
  | @error s t e hst => exact .halted e s t

/-- With any room, expressions without positions come to corresponding results. -/
theorem couples_further {g : Grammar} (hg : g.Positionless) {x : Expr} (hx : x.Positionless)
    (before text : String) (config : Config) (n : Nat) :
    (further g before.length).Couples
      (x.matcher (.ofText text config) (callRule (.ofText text config) n))
      (x.matcher (.ofText (before ++ text) config)
        (callRule (.ofText (before ++ text) config) n)) :=
  have hc := lawful_further hg before text config
  couples_expr hc (couples_callRule hc n) x (admits_further hx)

end Coupling

/-- In corresponding states where what is remembered is sound, the room of an evaluation does not
matter. -/
theorem Expr.moved_evaluate {g : Grammar} (hg : g.Positionless) {x : Expr} (hx : x.Positionless)
    {before text : String} {config : Config} {s t : State}
    (hst : (Coupling.further g before.length).States s t)
    (hs : Sane (.ofText text config) s) (hms : MemoSound (.ofText text config) s)
    (ht : Sane (.ofText (before ++ text) config) t)
    (hmt : MemoSound (.ofText (before ++ text) config) t) :
    Moved before.length (x.evaluate (.ofText text config) s)
        (x.evaluate (.ofText (before ++ text) config) t) ∧
      (x.Diverges (.ofText text config) s ↔ x.Diverges (.ofText (before ++ text) config) t) := by
  have hrun := fun n => Coupling.couples_further hg hx before text config n s t hst
  have hdiv : x.Diverges (.ofText text config) s ↔
      x.Diverges (.ofText (before ++ text) config) t :=
    forall_congr' fun n => (hrun n).exhausted_iff
  refine ⟨?_, hdiv⟩
  -- the texts have different lengths, so the evaluations are prepared for different room; both are
  -- exhausted in any room, or a room that is enough for one is enough for the other
  by_cases hd : x.Diverges (.ofText text config) s
  · obtain ⟨u, hu⟩ := ((x.exhausted_evaluate_iff hs hms).mpr hd).eq
    obtain ⟨w, hw⟩ := ((x.exhausted_evaluate_iff ht hmt).mpr (hdiv.mp hd)).eq
    rw [hu, hw]
    exact .halted _ u w
  · obtain ⟨n, hn⟩ := not_forall.mp hd
    rw [x.evaluate_eq_of_room hs hms hn,
      x.evaluate_eq_of_room ht hmt (mt (hrun n).exhausted_iff.mpr hn)]
    exact Coupling.moved_of_related (hrun n)

/-- Nothing is remembered in a fresh state. -/
theorem fresh_sound {env : Env} {s : State} (hs : s.cursor ≤ env.length)
    (hm : s.memo = .empty env.length) : Sane env s ∧ MemoSound env s := by
  have hnone : ∀ p key entry, ¬ s.Recalls env p key entry := by
    intro p key entry hr
    exact not_recalls_start env s.grammar p key entry (hr.congr hm)
  exact ⟨⟨hs, fun p key entry hr => absurd hr (hnone p key entry)⟩,
    fun p key entry hr => absurd hr (hnone p key entry)⟩

/-- An evaluation depends on the text from the cursor on only: behind another text it ends exactly
if it does without, and comes to the same, that much further on. -/
theorem Expr.evaluate_behind {x : Expr} (hx : x.Positionless) {g : Grammar} (hg : g.Positionless)
    (before text : String) (config : Config) (skipping : Bool) :
    let env := Env.ofText text config
    let env' := Env.ofText (before ++ text) config
    let s := { State.start env g with skipping }
    let t := { State.start env' g with skipping, cursor := before.length }
    Moved before.length (x.evaluate env s) (x.evaluate env' t) ∧
      (x.Diverges env s ↔ x.Diverges env' t) ∧
      (Result.Exhausted (x.evaluate env s) ↔ x.Diverges env s) := by
  intro env env' s t
  have hlength : env'.length = env.length + before.length :=
    (Coupling.lawful_further hg before text config).length
  have hst : (Coupling.further g before.length).States s t := by
    refine ⟨(Nat.zero_add _).symm, Array.map_empty.symm, ?_, rfl, rfl, rfl, rfl, .refl⟩
    change Memo.empty env'.length = (Memo.empty env.length).shift before.length
    rw [Memo.shift_empty, hlength]
  have hinside : t.cursor ≤ env'.length := hlength ▸ Nat.le_add_left ..
  have hfresh : Sane env s ∧ MemoSound env s := fresh_sound (Nat.zero_le _) rfl
  obtain ⟨hs, hms⟩ := hfresh
  obtain ⟨ht, hmt⟩ := fresh_sound hinside rfl
  obtain ⟨hmoved, hdiv⟩ := Expr.moved_evaluate hg hx hst hs hms ht hmt
  exact ⟨hmoved, hdiv, x.exhausted_evaluate_iff hs hms⟩

theorem Grammar.brackets_positionless : Grammar.brackets.Positionless := by
  refine positionless_of_means (fun r => ⟨_, brackets_means r⟩) fun r x hx => ?_
  have hmeans := hx.unique (brackets_means r)
  split at hmeans
  · cases hmeans
    intro h
    cases h with
    | step _ _ _ hmem h =>
      simp only [List.mem_cons, List.not_mem_nil, or_false] at hmem
      rcases hmem with rfl | rfl | rfl
      · cases h
      · cases h with | repeated _ _ h => cases h
      · cases h
  · cases hmeans

/-- Brackets behind something else are found there, with their blanks. -/
theorem Expr.evaluate_behind_brackets :
    let env := Env.ofText "( ( ) ) " {}
    let env' := Env.ofText ("](" ++ "( ( ) ) ") {}
    let s := { State.start env .brackets with skipping := true }
    let t := { State.start env' .brackets with skipping := true, cursor := "](".length }
    Result.meets (fun o u => o.stopFrom 0 = 8 && u.memo.size = 4)
        ((Expr.rule ⟨0, "nest"⟩).evaluate env s) = true ∧
      Moved "](".length ((Expr.rule ⟨0, "nest"⟩).evaluate env s)
        ((Expr.rule ⟨0, "nest"⟩).evaluate env' t) := by
  intro env env' s t
  have hnest : (Expr.rule ⟨0, "nest"⟩).Positionless := nofun
  refine ⟨by decide +kernel, ?_⟩
  exact (Expr.evaluate_behind hnest Grammar.brackets_positionless "](" "( ( ) ) " {} true).1

/-! ## Blanks in front of a text -/

section

variable {g : Grammar} {root : RuleId} {env : Env} {stop : Nat} {v : Value}

/-- Without skipping, a rule that is worked out matches where its work does. -/
theorem answer_matched_iff {n : Nat} {s : State} (hs : Sane env s) (hskip : s.skipping = false)
    (hk : s.known? env (.rule root) = none) (hl : s.atLimit env = false) :
    (∃ u, answer env n (.rule root) s = .ok (.matched stop v) u) ↔
      ∃ u, produce env n (.rule root) (s.opened (.rule root)) = .ok (.matched stop v) u := by
  rw [answer_unknown hk hl]
  cases hp : produce env n (.rule root) (s.opened (.rule root)) with
  | error e u => simp
  | ok o u =>
    obtain ⟨hstop, -, hskip'⟩ := produce_lands hs hp
    cases o with
    | failed => simp
    | matched stop' v' =>
      rw [hskip] at hskip'
      simp [State.skipBlanks, State.closed, State.emit, State.settle_eq, hskip', hstop,
        Outcome.stopFrom]

/-- The work behind a rule comes to a match exactly where its body does. -/
theorem produce_matched_iff {n : Nat} {s : State} :
    (∃ u, produce env (n + 1) (.rule root) s = .ok (.matched stop v) u) ↔
      ∃ x w u, Matcher.body? root (s.entering env root) = .ok (some x) w ∧
        x.matcher env (callRule env n) w = .ok (.matched stop v) u := by
  rw [produce_succ]
  cases hb : Matcher.body? root (s.entering env root) with
  | error e w => simp
  | ok x w =>
    cases x with
    | none => simp
    | some x =>
      simp only [EStateM.Result.ok.injEq, Option.some.injEq]
      have hrun : x.matcher env (callRule env n) w = (x.dialogue env w).run (answer env n) := by
        rw [x.matcher_eq_run, answer]
      cases hr : (x.dialogue env w).run (answer env n) with
      | error e u => rw [hr] at hrun; simp [hrun]
      | ok o u => rw [hr] at hrun; simp [hrun]

/-- What an evaluation comes to is what it comes to with any room that is enough. -/
theorem Expr.evaluate_ok_iff {x : Expr} {s : State} {o : Outcome Value} (hs : Sane env s)
    (hm : MemoSound env s) : (∃ u, x.evaluate env s = .ok o u) ↔
      ∃ n u, x.matcher env (callRule env n) s = .ok o u := by
  constructor
  · rintro ⟨u, hu⟩
    exact ⟨headroom env s.grammar, u, hu⟩
  · rintro ⟨n, u, hu⟩
    have hend : ¬ Result.Exhausted (x.matcher env (callRule env n) s) := by
      rw [hu]
      exact Result.exhausted_ok o u
    exact ⟨u, (x.evaluate_eq_of_room hs hm hend).trans hu⟩

/-- A root rule matches at the start of a run exactly if a rule may be opened and its body
matches. -/
theorem root_matched_iff_body :
    (∃ u, (Expr.rule root).evaluate env (.start env g) = .ok (.matched stop v) u) ↔
      (State.start env g).atLimit env = false ∧ ∃ n x w u,
        Matcher.body? root (((State.start env g).opened (.rule root)).entering env root) =
          .ok (some x) w ∧
        x.matcher env (callRule env n) w = .ok (.matched stop v) u := by
  have hs := sane_start env g
  have hk : (State.start env g).known? env (.rule root) = none := by
    cases hknown : (State.start env g).known? env (.rule root) with
    | none => rfl
    | some entry =>
      exact absurd (State.known?_eq_some.mp hknown) (not_recalls_start env g _ _ entry)
  rw [Expr.evaluate_ok_iff hs (memoSound_start env g)]
  change (∃ n u, answer env n (.rule root) (.start env g) = .ok (.matched stop v) u) ↔ _
  cases hl : (State.start env g).atLimit env with
  | true =>
    simp [answer_refused hk hl]
  | false =>
    simp only [answer_matched_iff hs rfl hk hl, true_and]
    constructor
    · rintro ⟨n, u, hu⟩
      cases n with
      | zero => cases hu
      | succ n => exact ⟨n, produce_matched_iff.mp ⟨u, hu⟩⟩
    · rintro ⟨n, hn⟩
      exact ⟨n + 1, produce_matched_iff.mpr hn⟩

end

theorem Moved.matched_iff {d : Nat} {r r' : Result (Outcome Value)} (h : Moved d r r') (stop : Nat)
    (v : Value) : (∃ u, r = .ok (.matched stop v) u) ↔ ∃ u, r' = .ok (.matched (stop + d) v) u := by
  cases h with
  | halted e s t => simp
  | @ended o s t => cases o <;> simp [Outcome.shift]

/-- In corresponding states the body of a rule matches in both runs or in neither. -/
theorem Coupling.body_matched_iff {g : Grammar} (hg : g.Positionless) {r : RuleId}
    {before text : String} {config : Config} {s t : State}
    (hst : (further g before.length).States s t) (n stop : Nat) (v : Value) :
    (∃ x w u, Matcher.body? r s = .ok (some x) w ∧
        x.matcher (.ofText text config) (callRule (.ofText text config) n) w =
          .ok (.matched stop v) u) ↔
      ∃ x w u, Matcher.body? r t = .ok (some x) w ∧
        x.matcher (.ofText (before ++ text) config)
          (callRule (.ofText (before ++ text) config) n) w =
          .ok (.matched (stop + before.length) v) u := by
  have hc := lawful_further hg before text config
  have hbody := pairs_body? hc r s t hst
  generalize Matcher.body? r s = a at hbody ⊢
  generalize Matcher.body? r t = b at hbody ⊢
  cases hbody with
  | error e hw => simp
  | @ok _ y w w' hxy hw =>
    obtain ⟨rfl, hadmits⟩ := hxy
    cases y with
    | none => simp
    | some x =>
      have hrun : Moved before.length _ _ := moved_of_related
        (couples_expr hc (couples_callRule hc n) x (hadmits x rfl) w w' hw)
      simpa using hrun.matched_iff stop v

/-- Behind blanks, the body of a root rule that skips them begins as it would without them. -/
theorem Coupling.states_leading {g : Grammar} {root : RuleId} (hroot : g.skipsBlanks root = true)
    {config : Config} {leading : String} (hleading : ∀ ch ∈ leading.toList, ch ∈ config.blanks)
    (text : String) :
    (further g leading.length).States
      (((State.start (.ofText text config) g).opened (.rule root)).entering (.ofText text config)
        root)
      (((State.start (.ofText (leading ++ text) config) g).opened (.rule root)).entering
        (.ofText (leading ++ text) config) root) := by
  have henter : ∀ env : Env, ((State.start env g).opened (.rule root)).entering env root =
      { (State.start env g).opened (.rule root) with
        skipping := true, cursor := env.skipBlanks 0 } := by
    intro env
    rw [State.entering, State.opened_grammar, show (State.start env g).grammar = g from rfl, hroot]
    rfl
  rw [henter, henter]
  refine ⟨Env.skipBlanks_leading hleading text, Array.map_empty.symm, ?_, rfl, rfl, rfl, rfl, .refl⟩
  change Memo.empty _ = (Memo.empty _).shift leading.length
  rw [Memo.shift_empty, Env.length_ofText, Env.length_ofText, String.length_append, Nat.add_comm]

/-- Blanks in front of a text do not matter to a root rule that skips blanks. -/
theorem Grammar.parse_leading_blanks {g : Grammar} (hg : g.Positionless) {root : RuleId}
    (hroot : g.skipsBlanks root = true) (config : Config) {leading : String}
    (hleading : ∀ ch ∈ leading.toList, ch ∈ config.blanks) (text : String) (v : Value) :
    (g.parse root config (leading ++ text)).answer = .ok (.ok v) ↔
      (g.parse root config text).answer = .ok (.ok v) := by
  -- the root rule is entered at the start of both texts, so only its bodies correspond
  have hst := Coupling.states_leading hroot hleading text
  rw [Grammar.parse_ok_iff, Grammar.parse_ok_iff, root_matched_iff_body, root_matched_iff_body,
    String.length_append, Nat.add_comm leading.length]
  refine and_congr Iff.rfl (exists_congr fun n => ?_)
  exact (Coupling.body_matched_iff hg hst n text.length v).symm

/-- Blanks in front of brackets. -/
theorem Grammar.parse_leading_blanks_brackets :
    Grammar.brackets.skipsBlanks ⟨0, "nest"⟩ = true ∧ ∃ v, v.display = "nest(nest())" ∧
      (Grammar.brackets.parse ⟨0, "nest"⟩ {} "(())").answer = .ok (.ok v) ∧
      (Grammar.brackets.parse ⟨0, "nest"⟩ {} (" \n\t" ++ "(())")).answer = .ok (.ok v) := by
  have hrun : ((Grammar.brackets.parse ⟨0, "nest"⟩ {} "(())").answer.toOption.bind
      Except.toOption).map Value.display = some "nest(nest())" := by decide +kernel
  have hblanks : ∀ ch ∈ " \n\t".toList, ch ∈ defaultBlanks := by simp [defaultBlanks]
  cases hparse : (Grammar.brackets.parse ⟨0, "nest"⟩ {} "(())").answer with
  | error halt => rw [hparse] at hrun; cases hrun
  | ok result =>
    rw [hparse] at hrun
    cases result with
    | error why => cases hrun
    | ok v =>
      exact ⟨rfl, v, Option.some.inj hrun, rfl, (Grammar.parse_leading_blanks
        Grammar.brackets_positionless rfl {} hblanks "(())" v).mpr hparse⟩

end Packrat
