import Taurus.Engine.Context

namespace taurus.engine.context

open taurus.lib taurus.python

/-- The texts a token can have. -/
def Token.Closed : Token → Prop
  | dollar => True
  | expr e => e ≠ [] ∧ '\x7d' ∉ e

/-- A piece of a template. -/
inductive Piece where
  | literal (c : Char)
  | token (t : Token)
  deriving DecidableEq

namespace Piece

/-- The piece as it stands in the template. -/
def source : Piece → List Char
  | literal c => [c]
  | token t => t.text

/-- What the piece becomes. -/
def text (py : Builtins) (ctx : WorkflowContext) : Piece → Except InterpolationError (List Char)
  | literal c => .ok [c]
  | token t => replacement py ctx t

end Piece

/-- A template read from left to right: a token where one stands, a literal character elsewhere. -/
inductive Scans : List Char → List Piece → Prop
  | nil : Scans [] []
  | token {t : Token} {cs : List Char} {pieces : List Piece} (hclosed : t.Closed)
    (hrest : Scans cs pieces) :
    Scans (t.text ++ cs) (.token t :: pieces)
  | literal {c : Char} {cs : List Char} {pieces : List Piece}
    (hnone : ∀ t : Token, t.Closed → ¬ t.text <+: c :: cs) (hrest : Scans cs pieces) :
    Scans (c :: cs) (.literal c :: pieces)

/-- Every dollar written twice. -/
def escaped (cs : List Char) : List Char := cs.flatMap fun c => if c = '$' then ['$', '$'] else [c]

theorem Token.text_length (t : Token) : 1 < t.text.length := by
  cases t <;> simp [Token.text]

theorem takeWhile_up_to {e rest : List Char} {b : Char} (hmem : b ∉ e) :
    (e ++ b :: rest).takeWhile (fun c => decide (c ≠ b)) = e := by
  rw [List.takeWhile_append_of_pos]
  · simp
  · intro c hc
    simp only [decide_eq_true_eq]
    rintro rfl
    exact hmem hc

/-- A text with a `b` is cut at the first one. -/
theorem takeWhile_cut {cs : List Char} {b : Char}
    (hlen : cs.length ≠ (cs.takeWhile fun c => decide (c ≠ b)).length) :
    ∃ rest, cs = (cs.takeWhile fun c => decide (c ≠ b)) ++ b :: rest := by
  have hsplit := List.takeWhile_append_dropWhile (p := fun c => decide (c ≠ b)) (l := cs)
  have hhead := List.head?_dropWhile_not (fun c => decide (c ≠ b)) cs
  cases hdrop : cs.dropWhile fun c => decide (c ≠ b) with
  | nil =>
    rw [hdrop, List.append_nil] at hsplit
    exact absurd (congrArg List.length hsplit).symm hlen
  | cons c rest =>
    have hc : c = b := by
      rw [hdrop] at hhead
      simpa using hhead
    rw [hdrop, hc] at hsplit
    exact ⟨rest, hsplit.symm⟩

/-- The scanner finds exactly the token that stands at the front. -/
theorem token?_eq_some_iff {cs : List Char} {t : Token} :
    token? cs = some t ↔ t.Closed ∧ t.text <+: cs := by
  constructor
  · intro h
    unfold token? at h
    split at h
    · obtain rfl := Option.some.inj h
      exact ⟨trivial, _, rfl⟩
    · rename_i cs
      simp only [Option.ite_none_left_eq_some, Option.some.injEq, not_or] at h
      obtain ⟨⟨hne, hlen⟩, rfl⟩ := h
      have hmem : '\x7d' ∉ cs.takeWhile fun c => decide (c ≠ '\x7d') := by
        intro hmem
        have :=
          List.all_eq_true.mp (List.all_takeWhile
            (p := fun c => decide (c ≠ '\x7d')) (l := cs)) _ hmem
        simp at this
      obtain ⟨rest, hrest⟩ := takeWhile_cut hlen
      refine ⟨⟨hne, hmem⟩, rest, ?_⟩
      conv_rhs => rw [hrest]
      simp [Token.text]
    · cases h
  · rintro ⟨hclosed, rest, rfl⟩
    cases t with
    | dollar => rfl
    | expr e =>
      obtain ⟨hne, hmem⟩ := hclosed
      have htext : (Token.expr e).text ++ rest = '$' :: '\x7b' :: (e ++ '\x7d' :: rest) := by
        simp [Token.text]
      rw [htext]
      simp only [token?, takeWhile_up_to hmem]
      simp [hne]

/-- There is no token exactly if no closed one begins the text. -/
theorem token?_eq_none_iff {cs : List Char} :
    token? cs = none ↔ ∀ t : Token, t.Closed → ¬ t.text <+: cs := by
  rw [Option.eq_none_iff_forall_ne_some]
  simp only [ne_eq, token?_eq_some_iff, not_and]

/-- The pieces of the rest of a template; `skip` counts the characters of the last token
that are still to be dropped. -/
def piecesFrom : Nat → List Char → List Piece
  | _, [] => []
  | skip + 1, _ :: cs => piecesFrom skip cs
  | 0, c :: cs =>
    match token? (c :: cs) with
    | none => .literal c :: piecesFrom 0 cs
    | some t => .token t :: piecesFrom (t.text.length - 1) cs

namespace Scans

/-- The pieces are the text. -/
theorem sources {cs : List Char} {pieces : List Piece} (h : Scans cs pieces) :
    pieces.flatMap Piece.source = cs := by
  induction h with
  | nil => rfl
  | token hclosed hrest ih => rw [List.flatMap_cons, ih, Piece.source]
  | literal hnone hrest ih => rw [List.flatMap_cons, ih, Piece.source, List.singleton_append]

theorem nil_iff {pieces : List Piece} : Scans [] pieces ↔ pieces = [] := by
  constructor
  · intro h
    cases pieces with
    | nil => rfl
    | cons piece rest =>
      have hlength := congrArg List.length h.sources
      have hpositive : 0 < piece.source.length := by
        cases piece with
        | literal c => exact Nat.one_pos
        | token t =>
          have := t.text_length
          simp only [Piece.source]
          omega
      simp only [List.flatMap_cons, List.length_append, List.length_nil] at hlength
      omega
  · rintro rfl
    exact nil

/-- The front of a text decides its first piece. -/
theorem cons_iff {c : Char} {cs : List Char} {pieces : List Piece} :
    Scans (c :: cs) pieces ↔
      (token? (c :: cs) = none ∧ ∃ rest, pieces = .literal c :: rest ∧ Scans cs rest) ∨
        ∃ t rest, token? (c :: cs) = some t ∧ pieces = .token t :: rest ∧
          Scans (cs.drop (t.text.length - 1)) rest := by
  constructor
  · intro h
    generalize htext : c :: cs = text at h
    cases h with
    | nil => cases htext
    | @token t _ rest hclosed hrest =>
      refine Or.inr ⟨t, rest, token?_eq_some_iff.mpr ⟨hclosed, List.prefix_append ..⟩, rfl, ?_⟩
      have hdrop := congrArg (List.drop t.text.length) htext
      have := t.text_length
      rw [List.drop_left, show t.text.length = t.text.length - 1 + 1 by omega, List.drop_succ_cons]
        at hdrop
      rw [hdrop]
      exact hrest
    | @literal _ _ rest hnone hrest =>
      obtain ⟨rfl, rfl⟩ := List.cons.inj htext
      exact Or.inl ⟨token?_eq_none_iff.mpr hnone, rest, rfl, hrest⟩
  · rintro (⟨hnone, rest, rfl, hrest⟩ | ⟨t, rest, htoken, rfl, hrest⟩)
    · exact literal (token?_eq_none_iff.mp hnone) hrest
    · obtain ⟨hclosed, after, htext⟩ := token?_eq_some_iff.mp htoken
      have hdrop := congrArg (List.drop t.text.length) htext
      have := t.text_length
      rw [List.drop_left, show t.text.length = t.text.length - 1 + 1 by omega, List.drop_succ_cons]
        at hdrop
      rw [← htext, hdrop]
      exact token hclosed hrest

theorem drop_iff {skip : Nat} {cs : List Char} {pieces : List Piece} :
    Scans (cs.drop skip) pieces ↔ pieces = piecesFrom skip cs := by
  induction cs generalizing skip pieces with
  | nil =>
    rw [List.drop_nil, nil_iff]
    cases skip <;> rfl
  | cons c cs ih =>
    cases skip with
    | succ skip => exact ih
    | zero =>
      rw [List.drop_zero, cons_iff, piecesFrom]
      cases htoken : token? (c :: cs) with
      | none =>
        have hrest := fun rest => @ih 0 rest
        simp only [List.drop_zero] at hrest
        simp [hrest]
      | some t => simp [ih]

/-- A text scans into its pieces and no others. -/
theorem iff_piecesFrom {cs : List Char} {pieces : List Piece} :
    Scans cs pieces ↔ pieces = piecesFrom 0 cs :=
  @drop_iff 0 cs pieces

/-- Doubled dollars are all that is found in an escaped text. -/
theorem of_escaped (cs : List Char) :
    Scans (escaped cs) (cs.map fun c => if c = '$' then .token .dollar else .literal c) := by
  induction cs with
  | nil => exact nil
  | cons c cs ih =>
    by_cases hc : c = '$'
    · subst hc
      exact token (t := .dollar) trivial ih
    · have hnone : ∀ t : Token, t.Closed → ¬ t.text <+: c :: escaped cs := by
        intro t _ hstands
        obtain ⟨rest, hrest⟩ := hstands
        cases t with
        | dollar => exact hc (List.cons.inj hrest).1.symm
        | expr e => exact hc (List.cons.inj hrest).1.symm
      simpa [escaped, hc] using literal hnone ih

/-- A text without tokens is all literal. -/
theorem of_tokenless {cs : List Char} (h : ∀ t : Token, t.Closed → ¬ t.text <:+: cs) :
    Scans cs (cs.map .literal) := by
  induction cs with
  | nil => exact nil
  | cons c cs ih =>
    apply literal
    · exact fun t hclosed hstands => h t hclosed hstands.isInfix
    · exact ih fun t hclosed hpart => h t hclosed (hpart.trans (List.suffix_cons c cs).isInfix)

end Scans

section

variable {py : Builtins} {ctx : WorkflowContext}

/-- The texts of the pieces one after the other. -/
def concatenated (py : Builtins) (ctx : WorkflowContext) (pieces : List Piece) :
    Except InterpolationError (List Char) :=
  (pieces.mapM (Piece.text py ctx)).map List.flatten

/-- Pieces are rendered one after the other. -/
theorem concatenated_cons (piece : Piece) (rest : List Piece) :
    concatenated py ctx (piece :: rest) =
      (piece.text py ctx).bind fun text => (concatenated py ctx rest).map (text ++ ·) := by
  rw [concatenated, concatenated, List.mapM_cons]
  cases piece.text py ctx with
  | error e => rfl
  | ok text => cases rest.mapM (Piece.text py ctx) <;> rfl

/-- Rendering renders each piece and joins them. -/
theorem renderFrom_eq (skip : Nat) (cs : List Char) :
    renderFrom py ctx skip cs = concatenated py ctx (piecesFrom skip cs) := by
  induction cs generalizing skip with
  | nil => cases skip <;> rfl
  | cons c cs ih =>
    cases skip with
    | succ skip => exact ih skip
    | zero =>
      rw [renderFrom, piecesFrom]
      cases htoken : token? (c :: cs) with
      | none =>
        rw [concatenated_cons, ← ih 0]
        rfl
      | some t =>
        rw [concatenated_cons, ← ih (t.text.length - 1)]
        cases h : replacement py ctx t <;> simp [Piece.text, h, Except.bind]

/-- Literal text leaves itself. -/
theorem concatenated_literal (cs : List Char) : concatenated py ctx (cs.map .literal) = .ok cs := by
  induction cs with
  | nil => rfl
  | cons c cs ih =>
    rw [List.map_cons, concatenated_cons, ih]
    rfl

/-- Escaped text is rendered as itself. -/
theorem concatenated_escaped (cs : List Char) :
    concatenated py ctx (cs.map fun c => if c = '$' then .token .dollar
      else .literal c) = .ok cs := by
  induction cs with
  | nil => rfl
  | cons c cs ih =>
    rw [List.map_cons, concatenated_cons, ih]
    by_cases hc : c = '$'
    · subst hc
      rfl
    · rw [if_neg hc]
      rfl

/-- A text that is left alone has no tokens. -/
theorem tokenless_of_plain {cs : List Char} (hbrace : isInfix ['$', '\x7b'] cs = false)
    (hdollar : isInfix ['$', '$'] cs = false) (t : Token) : ¬ t.text <:+: cs := by
  intro hpart
  cases t with
  | dollar =>
    have := isInfix_iff.mpr hpart
    simp only [Token.text, hdollar, Bool.false_eq_true] at this
  | expr e =>
    have hfront : ['$', '\x7b'] <+: (Token.expr e).text := ⟨e ++ ['\x7d'], by simp [Token.text]⟩
    have := isInfix_iff.mpr (hfront.isInfix.trans hpart)
    simp only [hbrace, Bool.false_eq_true] at this

/-- A template is rendered through the pieces it scans into. -/
theorem render_eq {template : String} {pieces : List Piece} (h : Scans template.toList pieces) :
    render py ctx template = (concatenated py ctx pieces).map String.ofList := by
  obtain rfl := Scans.iff_piecesFrom.mp h
  by_cases hplain : isInfix ['$', '\x7b'] template.toList = false ∧
    isInfix ['$', '$'] template.toList = false
  · have hliteral := Scans.iff_piecesFrom.mp
      (Scans.of_tokenless fun t _ => tokenless_of_plain hplain.1 hplain.2 t)
    rw [render, hplain.1, hplain.2, ← hliteral, concatenated_literal]
    simp [Except.map]
  · rw [render, if_neg, renderFrom_eq]
    simpa [imp_iff_not_or] using hplain

end

/-- A template is read in one way, and it renders to the texts of its pieces one after the
other, or to the error of the first piece without one. Text without tokens stays as it is, and
doubling its dollars undoes the rendering of any text. -/
theorem rendered_by_pieces (py : Builtins) (ctx : WorkflowContext) (template : String) :
    (∃ pieces, Scans template.toList pieces ∧
      (∀ other, Scans template.toList other → other = pieces) ∧
      pieces.flatMap Piece.source = template.toList ∧
      render py ctx template = (pieces.mapM (Piece.text py ctx)).map
        fun texts => String.ofList texts.flatten) ∧
    ((∀ t : Token, t.Closed → ¬ t.text <:+: template.toList) →
      render py ctx template = .ok template) ∧
    render py ctx (String.ofList (escaped template.toList)) = .ok template := by
  refine ⟨⟨piecesFrom 0 template.toList, ?_, ?_, ?_, ?_⟩, ?_, ?_⟩
  · exact Scans.iff_piecesFrom.mpr rfl
  · exact fun other hother => Scans.iff_piecesFrom.mp hother
  · exact (Scans.iff_piecesFrom.mpr rfl).sources
  · rw [render_eq (Scans.iff_piecesFrom.mpr rfl), concatenated]
    cases (piecesFrom 0 template.toList).mapM (Piece.text py ctx) <;> rfl
  · intro htokenless
    rw [render_eq (Scans.of_tokenless htokenless), concatenated_literal]
    simp [Except.map]
  · have hscans := Scans.of_escaped template.toList
    rw [← String.toList_ofList (l := escaped template.toList)] at hscans
    rw [render_eq hscans, concatenated_escaped]
    simp [Except.map]

end taurus.engine.context
