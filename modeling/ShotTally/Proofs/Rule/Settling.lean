/-
Two rules in parentheses with an operator between them, where the left one settles the result for all
shots at once. As long as the right rule is a single condition it is not looked at.

The operators within the right rule stand in front of the one that would skip it, so they are applied
before the left rule is looked at: a right rule with an operator is evaluated, its columns are asked
for, and where it has no value the whole has none.
-/
import ShotTally.Proofs.Rule.Deferring

namespace ShotTally.Rule

open Predicate Text

variable {accessor : Accessor}

/-! ## Rules in parentheses -/

/-- Two rules in parentheses, joined by an operator; the implicit conjunction has no mark. -/
def bracketed : Operator → String → String → String
  | .implicitAnd, l, r => "(" ++ l ++ ")(" ++ r ++ ")"
  | op, l, r => "(" ++ l ++ ")" ++ op.symbol ++ "(" ++ r ++ ")"

/-- A mark ends what stands in front of it. -/
theorem Reads.append_mark {cs ds : List Char} {l m : List Sign} {c : Char} (h : Reads cs l) (hc : c ∈ marks)
    (hr : Reads ds m) : Reads (cs ++ c :: ds) (l ++ .mark c :: m) := by
  induction h with
  | nil => exact .mark hc hr
  | blank hb _ ih => exact .blank hb ih
  | mark hm _ ih => exact .mark hm ih
  | @word w cs l ne all max _ ih =>
    rw [List.append_assoc]
    refine .word ne all ?_ ih
    -- the word is followed by what followed it before, or by the mark
    cases cs with
    | nil =>
      intro d hd hw
      cases hd
      exact hw.2 hc
    | cons d cs => exact max

theorem Reads.parens {cs ds : List Char} {l m : List Sign} (h : Reads cs l) (hr : Reads ds m) :
    Reads ('(' :: (cs ++ ')' :: ds)) (.mark '(' :: (l ++ .mark ')' :: m)) :=
  .mark (by decide) (h.append_mark (by decide) hr)

/-- Rules in parentheses are joined to the rule whose tree has the two trees below the operator. -/
theorem isRule_bracketed {op : Operator} (hop : op ≠ .not) {l r : String} {t u : Tree} (hl : IsRule l t)
    (hr : IsRule r u) : IsRule (bracketed op l r) (.binary op t u) := by
  obtain ⟨ls, hls, ht⟩ := hl
  obtain ⟨rs, hrs, hu⟩ := hr
  have hlast := hrs.parens .nil
  have pt : Derives .outer .primary (.mark '(' :: (ls ++ [.mark ')'])) t := .parens ht
  have pu : Derives .outer .primary (.mark '(' :: (rs ++ [.mark ')'])) u := .parens hu
  -- the two sides in brackets with a mark between them
  have hmarked : ∀ c : Char, c ∈ marks → ∀ text : String, text.toList =
      "(".toList ++ l.toList ++ ")".toList ++ [c] ++ "(".toList ++ r.toList ++ ")".toList →
      Reads text.toList ((.mark '(' :: (ls ++ [.mark ')'])) ++ .mark c :: (.mark '(' :: (rs ++ [.mark ')']))) := by
    intro c hc text htext
    have h := hls.parens (.mark hc hlast)
    rw [htext]
    simpa using h
  cases op with
  | not => exact absurd rfl hop
  | and =>
    exact ⟨_, hmarked '&' (by decide) _ (by simp [bracketed, Operator.symbol]),
      .alt (.conj (.and (.unary (.primary pt)) (.primary pu)))⟩
  | or =>
    exact ⟨_, hmarked '|' (by decide) _ (by simp [bracketed, Operator.symbol]),
      .alt (.alternative (by decide) (.conj (.unary (.primary pt))) (.unary (.primary pu)))⟩
  | xor =>
    exact ⟨_, hmarked '^' (by decide) _ (by simp [bracketed, Operator.symbol]),
      .alt (.alternative (by decide) (.conj (.unary (.primary pt))) (.unary (.primary pu)))⟩
  -- no mark at all: the brackets stand next to each other
  | implicitAnd =>
    refine ⟨(.mark '(' :: (ls ++ [.mark ')'])) ++ (.mark '(' :: (rs ++ [.mark ')'])), ?_,
      .adjacent (.alt (.conj (.unary (.primary pt)))) (.conj (.unary (.primary pu)))⟩
    have h := hls.parens hlast
    simpa [bracketed] using h

/-- A text that compiles and is not blank has a tree, and compiles to the predicate of the tree. -/
theorem exists_isRule_of_compile {source : String} {p : Predicate} (h : compile (some source) = .ok p)
    (hb : ¬ Blank source) : ∃ t, IsRule source t ∧ p = t.predicate source := by
  obtain ⟨ts, hts, hp⟩ := compile_eq_ok.1 h
  cases ts with
  | nil =>
    -- no token comes of no lexeme only, and no lexeme of blanks only
    have g : Gives source .outer (Lexeme.ofText source) [] := gives_of_tokensIn hts
    have hr := reads_scan source.toList 0
    rw [show Lexeme.scan 0 source.toList = [] from g.lexemes_eq_nil] at hr
    exact absurd (reads_nil_iff.1 hr) hb
  | cons a ts => exact isRule_of_tokens hts hp

theorem IsRule.compile {source : String} {t : Tree} (h : IsRule source t) :
    compile (some source) = .ok (t.predicate source) :=
  compile_eq_ok.2 (tokens_of_isRule h)

theorem IsRule.proper {source : String} {t : Tree} (h : IsRule source t) : t.Proper := by
  obtain ⟨l, -, hd⟩ := h
  exact hd.proper

/-! ## Two trees below an operator that the left one settles -/

/-- The mask of an operator on two trees: both are gone through before the left one is looked at. -/
def weighed (accessor : Accessor) (op : Operator) (t u : Tree) : Asking Mask :=
  t.find accessor >>= fun f => u.find accessor >>= fun g => f.weigh accessor op g

/-- The mask of a tree on its own. -/
def alone (accessor : Accessor) (t : Tree) : Asking Mask := t.find accessor >>= Finding.look accessor

section

variable {op : Operator} {b : Bool} {t u : Tree}

theorem asks_alone (t : Tree) : Asks accessor (alone accessor t) := t.asks_find.bind Finding.asks_look

/-- A tree that has a constant mask leaves an operand that looks like it. -/
theorem exists_finding (hv : answer (alone accessor t) = .ok (.constant b)) :
    ∃ f q, (t.find accessor).run .start = (.ok f, q) ∧ q.Faithful accessor ∧
      (f.look accessor).run q = (.ok (.constant b), ((f.look accessor).run q).2) ∧
      (alone accessor t).run .start = (f.look accessor).run q := by
  have ho : Inquiry.Onward accessor .start ((t.find accessor).run .start).2 := t.asks_find.onward _
  unfold answer alone at hv
  rcases hrun : (t.find accessor).run .start with ⟨e | f, q⟩
  · rw [run_bind_error hrun] at hv
    cases hv
  · rw [run_bind_ok hrun] at hv
    rw [hrun] at ho
    exact ⟨f, q, rfl, ho.faithful faithful_start, Prod.ext hv rfl, run_bind_ok hrun⟩

/-- Once the right tree has left its operand the left one settles the result. -/
theorem run_weighed {f : Finding} {q : Inquiry} (hrun : (t.find accessor).run .start = (.ok f, q))
    (hq : q.Faithful accessor) (hlook : ((f.look accessor).run q).1 = .ok (.constant b))
    (hs : settles op (.constant b) = true) {g : Finding} {r : Inquiry} (hu : (u.find accessor).run q = (.ok g, r)) :
    (weighed accessor op t u).run .start = (.ok (.constant b), ((f.look accessor).run r).2) := by
  have ho : Inquiry.Onward accessor q ((u.find accessor).run q).2 := u.asks_find.onward _
  rw [hu] at ho
  -- looking at the left operand later gives the same, as only more is known
  have hsame := (f.asks_look.spared hq (ho.faithful hq) ho.kept).outcome
  have hlater : (f.look accessor).run r = (.ok (.constant b), ((f.look accessor).run r).2) :=
    Prod.ext (hsame.trans hlook) rfl
  unfold weighed
  rw [run_bind_ok hrun, run_bind_ok hu]
  unfold Finding.weigh
  rw [run_bind_ok hlater, if_pos hs]
  rfl

/-- A single condition on the right is not looked at. -/
theorem run_weighed_atom {a : Atom} (hv : answer (alone accessor t) = .ok (.constant b))
    (hs : settles op (.constant b) = true) :
    (weighed accessor op t (.atom a)).run .start = (alone accessor t).run .start := by
  obtain ⟨f, q, hrun, hq, hlook, halone⟩ := exists_finding hv
  have ha : (Tree.find accessor (.atom a)).run q = (.ok (.unread a), q) := rfl
  rw [run_weighed hrun hq (congrArg Prod.fst hlook) hs ha, halone, hlook]

/-- A tree with an operator on the right is gone through to its mask, from what the left tree has
learnt; the left one settles the result if there is such a mask, and else the whole fails. -/
theorem run_weighed_operator (hv : answer (alone accessor t) = .ok (.constant b))
    (hs : settles op (.constant b) = true) (hu : ∀ a, u ≠ .atom a) :
    ∃ f q, q.Faithful accessor ∧ Inquiry.Within q ((f.look accessor).run q).2 ∧
      (alone accessor t).run .start = (Finding.look accessor f).run q ∧
      (weighed accessor op t u).run .start =
        match (alone accessor u).run q with
        | (.ok _, r) => (.ok (.constant b), ((f.look accessor).run r).2)
        | (.error e, r) => (.error e, r) := by
  obtain ⟨f, q, hrun, hq, hlook, halone⟩ := exists_finding hv
  refine ⟨f, q, hq, (f.asks_look.onward q).kept, halone, ?_⟩
  -- a side with operators is found only by working it out
  have hfind : u.find accessor = alone accessor u >>= fun m => pure (.known m) := by
    conv_lhs => rw [Tree.find_eq_known hu]
    exact (bind_assoc _ _ _).symm
  rcases hu' : (alone accessor u).run q with ⟨e | m, r⟩
  · have herror : (u.find accessor).run q = (.error e, r) := by rw [hfind, run_bind_error hu']
    unfold weighed
    rw [run_bind_ok hrun, run_bind_error herror]
  · have hok : (u.find accessor).run q = (.ok (.known m), r) := by
      rw [hfind, run_bind_ok hu']
      rfl
    exact run_weighed hrun hq (congrArg Prod.fst hlook) hs hok

/-- A tree with an operator on the right does not get in the way exactly if it has a mask of its own. -/
theorem answer_weighed_iff (hv : answer (alone accessor t) = .ok (.constant b)) (hs : settles op (.constant b) = true)
    (hu : ∀ a, u ≠ .atom a) :
    answer (weighed accessor op t u) = .ok (.constant b) ↔ ∃ m, answer (alone accessor u) = .ok m := by
  obtain ⟨f, q, hq, -, -, hrun⟩ := run_weighed_operator hv hs hu
  rw [← (asks_alone u).run_eq_answer hq]
  unfold answer
  rw [hrun]
  rcases (alone accessor u).run q with ⟨e | m, r⟩
  · constructor
    · intro h
      cases h
    · rintro ⟨m, h⟩
      cases h
  · exact ⟨fun _ => ⟨m, rfl⟩, fun _ => rfl⟩

/-- With an operator on the right, no keyword is asked for beyond those of the left tree exactly if the
right one on its own asks for none beyond them. -/
theorem questions_weighed_subset_iff (hv : answer (alone accessor t) = .ok (.constant b))
    (hs : settles op (.constant b) = true) (hu : ∀ a, u ≠ .atom a) :
    questions (weighed accessor op t u) ⊆ questions (alone accessor t) ↔
      questions (alone accessor u) ⊆ questions (alone accessor t) := by
  obtain ⟨f, q, hq, hfq, halone, hrun⟩ := run_weighed_operator hv hs hu
  have ho : Inquiry.Onward accessor q ((alone accessor u).run q).2 := (asks_alone u).onward _
  have hspared := (asks_alone u).spared faithful_start hq (start_within q)
  unfold questions
  rw [hrun, halone]
  rcases hu' : (alone accessor u).run q with ⟨e | m, r⟩
  all_goals rw [hu'] at ho hspared
  · -- the right tree fails after its questions, and the left operand is not looked at
    constructor
    · intro h
      exact List.Subset.trans hspared.within.asked h
    · intro h k hk
      rcases hspared.asked k hk with hk | hk
      · exact hfq.asked hk
      · exact h hk
  · have hlook : Spared r.asked ((f.look accessor).run q) ((f.look accessor).run r) :=
      f.asks_look.spared hq (ho.faithful hq) ho.kept
    constructor
    · intro h
      exact List.Subset.trans hspared.within.asked (List.Subset.trans (f.asks_look.onward r).kept.asked h)
    · intro h k hk
      rcases hlook.asked k hk with hk | hk
      · rcases hspared.asked k hk with hk | hk
        · exact hfq.asked hk
        · exact h hk
      · exact hk

end

/-! ## Two rules in parentheses -/

/-- The operators with the flag that settles their result. -/
def settling : List (Operator × Bool) := [(.and, false), (.implicitAnd, false), (.or, true)]

theorem settles_of_mem {op : Operator} {b : Bool} (h : (op, b) ∈ settling) :
    op ≠ .not ∧ settles op (.constant b) = true := by
  simp only [settling, List.mem_cons, Prod.mk.injEq, List.not_mem_nil, or_false] at h
  rcases h with ⟨rfl, rfl⟩ | ⟨rfl, rfl⟩ | ⟨rfl, rfl⟩ <;> exact ⟨by decide, rfl⟩

/-- Two bracketed rules whose left one settles the result. The two make a rule with the value of the left
one exactly if the right one is a single condition or has a value of its own, and a rule that asks for
nothing beyond the questions of the left one exactly if the right one is a single condition or asks for
nothing beyond them itself. -/
theorem evaluate_bracketed_iff {op : Operator} {b : Bool} {l r : String} {pl pr : Predicate}
    (hl : compile (some l) = .ok pl) (hr : compile (some r) = .ok pr) (hbl : ¬ Blank l) (hbr : ¬ Blank r)
    (hop : (op, b) ∈ settling) (hv : pl.evaluate accessor = .ok (.constant b)) :
    ∃ p, compile (some (bracketed op l r)) = .ok p ∧
      (p.evaluate accessor = .ok (.constant b) ↔
        (∀ o, Step.apply o ∉ pr.steps) ∨ ∃ m, pr.evaluate accessor = .ok m) ∧
      (p.asked accessor ⊆ pl.asked accessor ↔
        (∀ o, Step.apply o ∉ pr.steps) ∨ pr.asked accessor ⊆ pl.asked accessor) := by
  obtain ⟨hnot, hs⟩ := settles_of_mem hop
  obtain ⟨t, ht, rfl⟩ := exists_isRule_of_compile hl hbl
  obtain ⟨u, hu, rfl⟩ := exists_isRule_of_compile hr hbr
  have hrule := isRule_bracketed hnot ht hu
  refine ⟨_, hrule.compile, ?_⟩
  have hp : (Tree.predicate (bracketed op l r) (.binary op t u)).inquire accessor = weighed accessor op t u :=
    Tree.inquire_binary _ hrule.proper
  have hleft : (t.predicate l).inquire accessor = alone accessor t := Tree.inquire_predicate l ht.proper
  have hright : (u.predicate r).inquire accessor = alone accessor u := Tree.inquire_predicate r hu.proper
  rw [evaluate_eq, hleft] at hv
  rw [evaluate_eq, evaluate_eq, asked_eq, asked_eq, asked_eq, hp, hleft, hright]
  -- a right side without operators is a single atom, which is never looked at
  by_cases hsteps : ∀ o, Step.apply o ∉ (u.predicate r).steps
  · obtain ⟨a, rfl⟩ := Tree.eq_atom_of_postOrder hsteps
    have hrun : (weighed accessor op t (.atom a)).run .start = (alone accessor t).run .start := run_weighed_atom hv hs
    have hanswer : answer (weighed accessor op t (.atom a)) = .ok (.constant b) := by
      unfold answer at hv ⊢
      rw [hrun, hv]
    have hasked : questions (weighed accessor op t (.atom a)) ⊆ questions (alone accessor t) := by
      unfold questions
      rw [hrun]
      exact List.Subset.refl _
    exact ⟨iff_of_true hanswer (.inl hsteps), iff_of_true hasked (.inl hsteps)⟩
  -- otherwise its operators are applied before the outer one is reached
  · have hatom : ∀ a, u ≠ .atom a := by
      rintro a rfl
      exact hsteps fun o ho => by cases List.mem_singleton.1 ho
    rw [answer_weighed_iff hv hs hatom, questions_weighed_subset_iff hv hs hatom, or_iff_right hsteps,
      or_iff_right hsteps]
    exact ⟨.rfl, .rfl⟩

/-- One label for all shots, and nothing else. -/
def groupOnly : Accessor := .ofColumns (.ofList [("g", .label "x")])

theorem evaluate_bracketed_known : ∃ p, compile (some "(g:y)(~g:x)") = .ok p ∧
    p.evaluate groupOnly = .ok (.constant false) ∧ p.asked groupOnly ⊆ ["g"] := by
  have hl : compile (some "g:y") = .ok ⟨"g:y", [⟨"g", .textEqual, "y", none⟩], [.atom 0]⟩ := by decide +kernel
  have hr : compile (some "~g:x") = .ok ⟨"~g:x", [⟨"g", .textEqual, "x", none⟩], [.atom 0, .apply .not]⟩ := by
    decide +kernel
  have hop : (Operator.implicitAnd, false) ∈ settling := by decide
  have hv : evaluate ⟨"g:y", [⟨"g", .textEqual, "y", none⟩], [.atom 0]⟩ groupOnly = .ok (.constant false) := by
    decide +kernel
  have hleft : asked ⟨"g:y", [⟨"g", .textEqual, "y", none⟩], [.atom 0]⟩ groupOnly = ["g"] := by decide +kernel
  have hright : asked ⟨"~g:x", [⟨"g", .textEqual, "x", none⟩], [.atom 0, .apply .not]⟩ groupOnly = ["g"] := by
    decide +kernel
  have hm : evaluate ⟨"~g:x", [⟨"g", .textEqual, "x", none⟩], [.atom 0, .apply .not]⟩ groupOnly =
      .ok (.constant false) := by decide +kernel
  have hbl : ¬ Blank "g:y" := by decide
  have hbr : ¬ Blank "~g:x" := by decide
  obtain ⟨p, hp, hvalue, hasked⟩ := evaluate_bracketed_iff hl hr hbl hbr hop hv
  rw [hleft, hright] at hasked
  exact ⟨p, hp, hvalue.2 (.inr ⟨_, hm⟩), hasked.2 (.inr (List.Subset.refl _))⟩

/-- A negation on the right is applied before the left rule is looked at: its column is asked for, and
where there is none the rule has no value. -/
theorem evaluate_bracketed_negation : ∃ pl pr p, compile (some "g:y") = .ok pl ∧ compile (some "~m:1") = .ok pr ∧
    compile (some "(g:y)&(~m:1)") = .ok p ∧ pl.evaluate groupOnly = .ok (.constant false) ∧
    pl.asked groupOnly = ["g"] ∧ p.asked groupOnly = ["m"] ∧
    p.evaluate groupOnly = fail (.note (Report.new .rule "unknown_keyword" "keyword is not bound") "keyword" "m") := by
  refine ⟨⟨"g:y", [⟨"g", .textEqual, "y", none⟩], [.atom 0]⟩,
    ⟨"~m:1", [⟨"m", .textEqual, "1", some .one⟩], [.atom 0, .apply .not]⟩,
    ⟨"(g:y)&(~m:1)", [⟨"g", .textEqual, "y", none⟩, ⟨"m", .textEqual, "1", some .one⟩],
      [.atom 0, .atom 1, .apply .not, .apply .and]⟩, ?_⟩
  decide +kernel

end ShotTally.Rule
