/-
Where faults point. Every lexeme stands in the text at the byte that it has noted, whatever characters come
before it; tokens keep the places of their lexemes, and the machine only ever blames a token that is written as
it is shown, or a parenthesis that it remembers. So the place of every fault is a place of the text, and what the
fault shows is what stands there.
-/
import ShotTally.Proofs.Keyed
import ShotTally.Proofs.Rule.Expansion
import ShotTally.Proofs.Text.Digits

namespace ShotTally.Rule

open Predicate

/-! ## Places in a text -/

/-- A text is in the source, behind so many bytes. -/
def StandsAt (source text : String) (position : Nat) : Prop :=
  ∃ before after : String, source = before ++ text ++ after ∧ before.utf8ByteSize = position

variable {source : String}

/-- What starts a text stands where the text does. -/
theorem StandsAt.take {w : List Char} {p : Nat} (h : StandsAt source (.ofList w) p) (n : Nat) :
    StandsAt source (.ofList (w.take n)) p := by
  obtain ⟨before, after, hsource, rfl⟩ := h
  refine ⟨before, .ofList (w.drop n) ++ after, ?_, rfl⟩
  have hw : String.ofList w = .ofList (w.take n) ++ .ofList (w.drop n) := by
    rw [← String.ofList_append, List.take_append_drop]
  rw [hsource, hw, String.append_assoc, String.append_assoc, String.append_assoc]

/-! ## Lexemes -/

namespace Lexeme

/-- The characters of a lexeme. -/
def chars : Lexeme → List Char
  | word text _ => text
  | mark symbol _ => [symbol]

/-- A lexeme stands at its place. -/
structure InPlace (source : String) (l : Lexeme) : Prop where
  ne : l.chars ≠ []
  here : StandsAt source (.ofList l.chars) l.position

/-- The lexemes of a text, and of every rest of it, stand at their places. -/
theorem inPlace_scan : ∀ {cs : List Char} {before : String}, source = before ++ .ofList cs →
    ∀ l ∈ scan before.utf8ByteSize cs, l.InPlace source
  | [], _, _, l, hl => by cases hl
  | c :: cs, before, h, l, hl => by
    have hsplit : ∀ w after : List Char, c :: cs = w ++ after → source = before ++ .ofList w ++ .ofList after := by
      intro w after hw
      rw [h, hw, String.ofList_append, String.append_assoc]
    have hhere : ∀ {w after : List Char}, c :: cs = w ++ after → StandsAt source (.ofList w) before.utf8ByteSize :=
      fun hw => ⟨before, _, hsplit _ _ hw, rfl⟩
    have hrest : ∀ l ∈ scan (before.utf8ByteSize + c.utf8Size) cs, l.InPlace source := by
      have hnext := inPlace_scan (hsplit [c] cs rfl)
      rwa [String.utf8ByteSize_append, ← String.singleton_eq_ofList, String.utf8ByteSize_singleton] at hnext
    by_cases hblank : Text.isBlank c = true
    · rw [scan_blank hblank] at hl
      exact hrest l hl
    by_cases hmark : c ∈ marks
    · rw [scan_mark hmark] at hl
      rcases List.mem_cons.1 hl with rfl | hl
      · exact ⟨by simp [chars], hhere (w := [c]) rfl⟩
      · exact hrest l hl
    have hword : WordChar c := ⟨Bool.not_eq_true _ ▸ hblank, hmark⟩
    by_cases hmore : Continues cs
    · -- the word that starts behind the character takes it in front
      obtain ⟨w, after, m, hne, hall, hmax, -, rfl, -⟩ := (reads_scan cs 0).exists_word hmore
      obtain ⟨q, hq⟩ := scan_word hmax (before.utf8ByteSize + c.utf8Size) hne hall
      rw [scan_more hword hmore hq] at hl
      rcases List.mem_cons.1 hl with rfl | hl
      · exact ⟨by simp [chars], hhere rfl⟩
      · exact hrest l (hq ▸ List.mem_cons_of_mem _ hl)
    · rw [scan_last hword hmore] at hl
      rcases List.mem_cons.1 hl with rfl | hl
      · exact ⟨by simp [chars], hhere (w := [c]) rfl⟩
      · exact hrest l hl

theorem inPlace_ofText : ∀ l ∈ ofText source, l.InPlace source := by
  have hwhole : source = "" ++ .ofList source.toList := by rw [String.ofList_toList, String.empty_append]
  exact inPlace_scan hwhole

theorem ofList_initial (l : Lexeme) : l.initial = .ofList (l.chars.take 1) := by
  cases l <;> simp [initial, chars]

end Lexeme

/-! ## Faults -/

/-- A fault shows the end of the text, or what stands at its place. -/
structure Fault.Points (source : String) (f : Fault) : Prop where
  whole : f.source = source
  place : (f.token = "<end>" ∧ f.position = source.utf8ByteSize) ∨
    (f.token ≠ "" ∧ StandsAt source f.token f.position)

theorem ofList_ne {w : List Char} (h : w ≠ []) : String.ofList w ≠ "" := by
  simpa using h

theorem points_of_stands {w : List Char} {p : Nat} (hne : w ≠ []) (h : StandsAt source (.ofList w) p)
    (problem : Problem) :
    Fault.Points source ⟨problem, source, .ofList w, p⟩ :=
  ⟨rfl, .inr ⟨ofList_ne hne, h⟩⟩

theorem points_atNext {ls : List Lexeme} (h : ∀ l ∈ ls, l.InPlace source) (problem : Problem) :
    (Fault.atNext problem source ls).Points source := by
  cases ls with
  | nil => exact ⟨rfl, .inl ⟨rfl, rfl⟩⟩
  | cons l ls =>
    have hl := h l List.mem_cons_self
    show Fault.Points source ⟨problem, source, l.initial, l.position⟩
    rw [Lexeme.ofList_initial]
    exact points_of_stands (by simpa using hl.ne) (hl.here.take 1) problem

/-! ## Tokens -/

/-- A token stands at its place as it is shown. This is not asked of a condition, which is shown with its keyword
and without blanks. -/
def Token.InPlace (source : String) (t : Token) : Prop :=
  (∃ a, t.kind = .atom a) ∨ (t.text ≠ "" ∧ StandsAt source t.text t.position)

theorem Token.InPlace.here {t : Token} (h : t.InPlace source) (hk : ∀ a, t.kind ≠ .atom a) :
    t.text ≠ "" ∧ StandsAt source t.text t.position :=
  h.resolve_left fun ⟨a, ha⟩ => hk a ha

/-- The parenthesis of the group of options, when inside one, stands at its place. -/
def Mode.InPlace (source : String) : Mode → Prop
  | .outer => True
  | .inside _ _ opened _ _ => StandsAt source "(" opened

@[simp] theorem Mode.inPlace_enter {m : Mode} : m.enter.InPlace source ↔ m.InPlace source := by cases m <;> rfl

theorem symbol_eq {c : Char} {op : Operator} (h : Operator.ofSymbol? c = some op) : op.symbol = .ofList [c] := by
  unfold Operator.ofSymbol? at h
  split at h <;> cases h <;> rfl

/-- A token of one mark stands where the mark does. -/
theorem Lexeme.InPlace.token {c : Char} {p : Nat} (h : (Lexeme.mark c p).InPlace source) {t : Token}
    (hp : t.position = p) (ht : t.text = .ofList [c]) : t.InPlace source := by
  refine .inr ⟨?_, ?_⟩
  · rw [ht]
    exact ofList_ne h.ne
  · rw [ht, hp]
    exact h.here

theorem make_eq_error {k w : List Char} {cmp : Comparison} {p : Nat} {f : Fault}
    (h : Atom.make source k cmp w p = .error f) : f = ⟨.operandNotNumeric, source, .ofList w, p⟩ := by
  unfold Atom.make at h
  dsimp only at h
  split at h <;> cases h
  rfl

theorem Lexeme.InPlace.points_of_make {k w : List Char} {cmp : Comparison} {p : Nat} {f : Fault}
    (h : (Lexeme.word w p).InPlace source) (hf : Atom.make source k cmp w p = .error f) : f.Points source := by
  rw [make_eq_error hf]
  exact points_of_stands h.ne h.here _

theorem ends_cons {x : Except Fault (List Token)} {t : Token} (ht : t.InPlace source)
    (h : Ends x (fun ts => ∀ t ∈ ts, t.InPlace source) (Fault.Points source)) :
    Ends (x.map (t :: ·)) (fun ts => ∀ t ∈ ts, t.InPlace source) (Fault.Points source) := by
  cases x with
  | error f => exact ends_error.2 (ends_error.1 h)
  | ok ts => exact ends_ok.2 (List.forall_mem_cons.2 ⟨ht, ends_ok.1 h⟩)

theorem ends_tokensIn : ∀ {m : Mode} {ls : List Lexeme}, m.InPlace source → (∀ l ∈ ls, l.InPlace source) →
    Ends (tokensIn source m ls) (fun ts => ∀ t ∈ ts, t.InPlace source) (Fault.Points source)
  | .outer, [], _, _ => ends_ok.2 (by simp)
  -- the text ends within a group: the fault points at its opening bracket
  | .inside .., [], hm, _ => ends_error.2 (points_of_stands (w := ['(']) (by simp) hm _)
  | .inside k cmp opened inner seen, .word w p :: ls, hm, h => by
    obtain ⟨hw, hls⟩ := List.forall_mem_cons.1 h
    rcases ha : Atom.make source k cmp w p with f | a
    · simpa [tokensIn, Token.options, ha] using hw.points_of_make ha
    · rw [tokensIn_option ha]
      exact ends_cons (.inl ⟨a, rfl⟩) (ends_tokensIn hm hls)
  -- a word outside must begin a condition or a group: the fault points at what follows instead
  | .outer, [.word k p], _, _ => ends_error.2 (points_atNext (by simp) _)
  | .outer, .word k p :: .word w q :: ls, _, h => ends_error.2 (points_atNext (List.forall_mem_cons.1 h).2 _)
  | .outer, [.word k p, .mark c q], _, h => by
    obtain ⟨-, hls⟩ := List.forall_mem_cons.1 h
    rcases hc : Comparison.ofSymbol? c with _ | cmp
    · simpa [tokensIn, Token.explicit, hc] using points_atNext hls _
    · simpa [tokensIn, Token.explicit, hc] using points_atNext (by simp) _
  | .outer, .word k p :: .mark c q :: .word w r :: ls, _, h => by
    obtain ⟨-, hrest⟩ := List.forall_mem_cons.1 h
    obtain ⟨-, hw, hls⟩ := by simpa using hrest
    rcases hc : Comparison.ofSymbol? c with _ | cmp
    · simpa [tokensIn, Token.explicit, hc] using points_atNext hrest _
    rcases ha : Atom.make source k cmp w r with f | a
    · simpa [tokensIn, Token.explicit, hc, ha] using hw.points_of_make ha
    · rw [tokensIn_condition hc ha]
      exact ends_cons (.inl ⟨a, rfl⟩) (ends_tokensIn trivial hls)
  | .outer, .word k p :: .mark c q :: .mark d r :: ls, _, h => by
    obtain ⟨-, hrest⟩ := List.forall_mem_cons.1 h
    obtain ⟨-, hafter⟩ := List.forall_mem_cons.1 hrest
    obtain ⟨hd, hls⟩ := List.forall_mem_cons.1 hafter
    rcases hc : Comparison.ofSymbol? c with _ | cmp
    · simpa [tokensIn, Token.explicit, hc] using points_atNext hrest _
    by_cases hopen : d = '('
    · subst hopen
      rw [tokensIn_group hc]
      exact ends_cons (hd.token rfl rfl) (ends_tokensIn hd.here hls)
    · simpa [tokensIn, Token.explicit, hc, hopen] using points_atNext hafter _
  | m, .mark c p :: ls, hm, h => by
    obtain ⟨hmark, hls⟩ := List.forall_mem_cons.1 h
    rcases hc : Operator.ofSymbol? c with _ | op
    · by_cases hopen : c = '('
      · subst hopen
        rw [tokensIn_opening]
        exact ends_cons (hmark.token rfl rfl) (ends_tokensIn (Mode.inPlace_enter.2 hm) hls)
      by_cases hclose : c = ')'
      · subst hclose
        have hclosing : Token.InPlace source ⟨.closing, p⟩ := hmark.token rfl rfl
        -- a closing bracket that leaves a mode which an opening one entered
        have hleave : ∀ m' : Mode, m = m'.enter → Ends (tokensIn source m (.mark ')' p :: ls))
            (fun ts => ∀ t ∈ ts, t.InPlace source) (Fault.Points source) := by
          rintro m' rfl
          rw [tokensIn_closing]
          exact ends_cons hclosing (ends_tokensIn (Mode.inPlace_enter.1 hm) hls)
        rcases m with _ | ⟨k, cmp, opened, _ | inner, seen⟩
        · exact hleave .outer rfl
        · cases seen
          · simpa [tokensIn, Token.options, hc] using points_of_stands (w := ['(']) (by simp) hm _
          · rw [tokensIn_groupEnd]
            exact ends_cons hclosing (ends_tokensIn trivial hls)
        · exact hleave (.inside k cmp opened inner seen) rfl
      · cases m <;> simpa [tokensIn, Token.explicit, Token.options, hc, hopen, hclose] using points_atNext h _
    · rw [tokensIn_operator hc]
      exact ends_cons (hmark.token rfl (symbol_eq hc)) (ends_tokensIn hm hls)
  termination_by _ ls => ls.length

/-! ## The machine -/

namespace Predicate.Progress

/-- The parentheses that wait stand at the places that are remembered. -/
def InPlace (source : String) (p : Progress) : Prop := ∀ o, .opening o ∈ p.waiting → StandsAt source "(" o

theorem mem_of_mem_release {op : Operator} {w : Waiting} : ∀ {ws : List Waiting}, w ∈ (release op ws).2 → w ∈ ws
  | [], h => h
  | .opening _ :: _, h => h
  | .operator v :: ws, h => by
    unfold release at h
    split at h
    · exact List.mem_cons_of_mem _ (mem_of_mem_release h)
    · exact h

theorem mem_of_mem_close {w : Waiting} : ∀ {ws left : List Waiting} {out : List Step},
    close ws = some (out, left) → w ∈ left → w ∈ ws
  | .opening _ :: _, _, _, h, hw => by
    cases h
    exact List.mem_cons_of_mem _ hw
  | .operator _ :: ws, left, out, h, hw => by
    obtain ⟨⟨out', left'⟩, hclose, heq⟩ := Option.map_eq_some_iff.1 h
    cases heq
    exact List.mem_cons_of_mem _ (mem_of_mem_close hclose hw)

variable {p q : Progress} {t : Token}

/-- A binary operator behind an operand puts operators out, and no parenthesis. -/
theorem inPlace_release (hp : p.InPlace source) (op : Operator) (steps : List Step) :
    InPlace source { p with steps := steps, waiting := .operator op :: (release op p.waiting).2, expects := true } := by
  intro o ho
  rcases List.mem_cons.1 ho with ho | ho
  · cases ho
  · exact hp o (mem_of_mem_release ho)

/-- The implicit conjunction is put in only where it is read without fault. -/
theorem ends_implicitAnd (hp : p.InPlace source) (he : p.expects = false) (position : Nat) :
    Ends (p.read source ⟨.operator .implicitAnd, position⟩) (InPlace source) (Fault.Points source) := by
  simp only [read, he, Bool.false_eq_true, if_false]
  exact ends_ok.2 (inPlace_release hp .implicitAnd _)

/-- One token. -/
theorem ends_read (hp : p.InPlace source) (ht : t.InPlace source) :
    Ends (p.read source t) (InPlace source) (Fault.Points source) := by
  obtain ⟨kind, position⟩ := t
  cases kind with
  | atom a => exact ends_ok.2 hp
  | opening =>
    refine ends_ok.2 fun o ho => ?_
    rcases List.mem_cons.1 ho with ho | ho
    · cases ho
      exact (ht.here (by simp)).2
    · exact hp o ho
  | closing =>
    -- a closing bracket out of place, or without the opening one: both faults are at it
    have hfault : ∀ problem, Fault.Points source ⟨problem, source, ")", position⟩ := fun problem =>
      ⟨rfl, .inr (ht.here (by simp))⟩
    simp only [read]
    split
    · exact ends_error.2 (hfault _)
    split
    · exact ends_error.2 (hfault _)
    · rename_i out left hclose
      exact ends_ok.2 fun o ho => hp o (mem_of_mem_close hclose ho)
  | operator op =>
    by_cases hop : op = .not
    · subst hop
      refine ends_ok.2 fun o ho => ?_
      rcases List.mem_cons.1 ho with ho | ho
      · cases ho
      · exact hp o ho
    -- binary operators differ only in what they release
    · have hread : p.read source ⟨.operator op, position⟩ =
          if p.expects then .error ⟨.missingLeftOperand, source, op.symbol, position⟩
          else .ok { p with steps := p.steps ++ (release op p.waiting).1,
                            waiting := .operator op :: (release op p.waiting).2, expects := true } := by
        cases op <;> first | exact absurd rfl hop | rfl
      rw [hread]
      split
      · exact ends_error.2 ⟨rfl, .inr (ht.here (by simp))⟩
      · exact ends_ok.2 (inPlace_release hp op _)

/-- One token, with the implicit conjunction understood. -/
theorem ends_take (hp : p.InPlace source) (ht : t.InPlace source) :
    Ends (p.take source t) (InPlace source) (Fault.Points source) := by
  unfold take
  split
  · rename_i h
    exact (ends_implicitAnd hp h.1 t.position).bind fun q _ hq => ends_read hq ht
  · exact ends_read hp ht

/-- All tokens of a list. -/
theorem ends_run : ∀ {ts : List Token} {p : Progress}, (∀ t ∈ ts, t.InPlace source) → p.InPlace source →
    Ends (ts.foldlM (take source) p) (InPlace source) (Fault.Points source)
  | [], _, _, hp => ends_ok.2 hp
  | t :: ts, p, h, hp => by
    obtain ⟨ht, hts⟩ := List.forall_mem_cons.1 h
    rw [List.foldlM_cons]
    exact (ends_take hp ht).bind fun q _ hq => ends_run hts hq

theorem expects_take (h : p.take source t = .ok q) : q.expects = !t.endsOperand := by
  unfold take at h
  split at h
  · obtain ⟨q', -, hq⟩ := bind_eq_ok.1 h
    exact expects_read hq
  · exact expects_read h

/-- After all tokens an operand is expected unless the last token ends one. -/
theorem expects_run {ts : List Token} {last : Token} (h : ts.foldlM (take source) p = .ok q)
    (hlast : ts.getLast? = some last) : q.expects = !last.endsOperand := by
  obtain ⟨front, rfl⟩ := List.getLast?_eq_some_iff.1 hlast
  rw [List.foldlM_append, bind_eq_ok] at h
  obtain ⟨q', -, hq⟩ := h
  rw [List.foldlM_cons, bind_eq_ok] at hq
  obtain ⟨q'', hq, hend⟩ := hq
  cases hend
  exact expects_take hq

theorem ends_finish : ∀ {ws : List Waiting}, (∀ o, .opening o ∈ ws → StandsAt source "(" o) →
    Ends (finish source ws) (fun _ => True) (Fault.Points source)
  | [], _ => ends_ok.2 trivial
  | .opening o :: ws, h => ends_error.2 (points_of_stands (w := ['(']) (by simp) (h o List.mem_cons_self) _)
  | .operator w :: ws, h => by
    have hrest := ends_finish fun o ho => h o (List.mem_cons_of_mem _ ho)
    exact hrest.bind fun _ _ _ => ends_ok.2 trivial

end Predicate.Progress

/-! ## The compiler -/

/-- Tokens in their places come to a rule or to a fault that points to one of them. -/
theorem points_of_ofTokens {ts : List Token} {f : Fault} (h : ∀ t ∈ ts, t.InPlace source)
    (hf : ofTokens source (Token.joinAdjacent ts) = .error f) : f.Points source := by
  cases ts with
  | nil => cases hf
  | cons a ts =>
    have hrun := Progress.ends_run (p := .start) h nofun
    have hlast : (a :: ts).getLast? = some ((a :: ts).getLast (by simp)) := List.getLast?_eq_some_getLast _
    unfold ofTokens at hf
    rw [Progress.foldlM_joinAdjacent_start, Progress.getLast?_joinAdjacent, hlast] at hf
    cases hq : (a :: ts).foldlM (Progress.take source) .start with
    | error e =>
      rw [hq] at hf
      cases hf
      exact hrun.error _ hq
    | ok q =>
      rw [hq, ok_bind] at hf
      have hexpects := Progress.expects_run hq hlast
      have hplace := h _ (List.getLast_mem (List.cons_ne_nil a ts))
      cases he : q.expects with
      | true =>
        -- a condition ends an operand, so the last token is none
        simp only [he] at hf
        cases hf
        refine ⟨rfl, .inr (hplace.here fun c hc => ?_)⟩
        rw [he, Token.endsOperand, hc] at hexpects
        cases hexpects
      | false =>
        simp only [he] at hf
        have hfinish := Progress.ends_finish (hrun.ok q hq)
        cases hout : Progress.finish source q.waiting with
        | ok out =>
          rw [hout] at hf
          cases hf
        | error e =>
          rw [hout] at hf
          cases hf
          exact hfinish.error _ hout

theorem points_of_compile {f : Fault} (h : compile (some source) = .error f) : f.Points source := by
  have htokens : Ends (Token.ofText source >>= ofTokens source) (fun _ => True) (Fault.Points source) := by
    have hlexemes : ∀ l ∈ Lexeme.ofText source, l.InPlace source := Lexeme.inPlace_ofText
    have hexplicit := ends_tokensIn (m := .outer) trivial hlexemes
    unfold Token.ofText
    cases hts : Token.explicit source (Lexeme.ofText source) with
    | error e => exact ends_error.2 (hexplicit.error e hts)
    | ok ts => exact ⟨fun _ _ => trivial, fun e he => points_of_ofTokens (hexplicit.ok ts hts) he⟩
  exact htokens.error f h

/-- Every text that is no rule is refused with a report that names the text as a whole and a byte in it: the end, or
one in front of which and behind which there are whole characters, and from which on the text goes on with the
characters that the report shows. -/
theorem compile_report (source : String) (e : Failure)
    (h : (compile (some source)).mapError Fault.failure = .error e) : ∃ report token position,
      e = .reported report ∧ report.family = .rule ∧ report.context.get? "rule" = some source ∧
      report.context.get? "token" = some token ∧ report.context.get? "position" = some (Text.natText position) ∧
      ((token = "<end>" ∧ position = source.utf8ByteSize) ∨
        (token ≠ "" ∧ ∃ before after : String, source = before ++ token ++ after ∧
          before.utf8ByteSize = position)) := by
  cases hc : compile (some source) with
  | ok p =>
    rw [hc] at h
    cases h
  | error f =>
    rw [hc] at h
    cases h
    obtain ⟨hwhole, hplace⟩ := points_of_compile hc
    refine ⟨f.report, f.token, f.position, rfl, rfl, ?_, ?_, ?_, hplace⟩ <;>
      simp [Fault.report, Report.note, Keyed.get?_insert, hwhole]

/-- The second of two operators, behind letters of two bytes and a blank of three. -/
theorem compile_report_second_operator : ∃ before after : String,
    "größe:1 &\u3000& b:2" = before ++ "&" ++ after ∧ before.utf8ByteSize = 14 := by
  have hfault : compile (some "größe:1 &\u3000& b:2") =
      .error ⟨.missingLeftOperand, "größe:1 &\u3000& b:2", "&", 14⟩ := by decide +kernel
  obtain ⟨report, token, position, hreport, -, -, htoken, hposition, hplace⟩ :=
    compile_report "größe:1 &\u3000& b:2" _ (congrArg (Except.mapError Fault.failure) hfault)
  cases hreport
  have htext : "&" = token := Option.some.inj htoken
  have hnat : Text.natText 14 = Text.natText position := Option.some.inj hposition
  obtain rfl : 14 = position := Text.natDigits_injective (String.ofList_injective hnat)
  subst htext
  rcases hplace with ⟨hend, -⟩ | ⟨-, hplace⟩
  · exact absurd hend (by decide)
  · exact hplace

end ShotTally.Rule
