import SkeletonWeave.Proofs.Declaration.Nesting

/-!
# Heads of declarations

The head of a declaration goes up to the semicolon or the brace that ends it. Its
brackets nest, and a brace in it initializes something: it follows an equals sign
or, among member initializers, a name or template arguments.
-/

set_option autoImplicit false

namespace SkeletonWeave

open Token (Nested brackets closer)

namespace Declaration

/-- Whether a brace initializes something, from the token before it and whether member initializers
have begun. -/
def initializes (previous? : Option Token) (inInitializers : Bool) : Bool :=
  previous?.any fun t =>
    t.isPunctuation "=" || (inInitializers && (t.kind == .identifier || t.isPunctuation ">"))

/-- Whether tokens complete the head of a declaration that `stop` ends, from the token before them,
whether a parameter list stands before them and whether member initializers have begun. -/
inductive Head (stop : Token) : Option Token → Bool → Bool → List Token → Prop
  | done {previous? : Option Token} {params inits : Bool} :
    stop.isPunctuation ";" = true ∨
      stop.isPunctuation "\x7b" = true ∧ initializes previous? inits = false →
    Head stop previous? params inits []
  | plain {previous? : Option Token} {params inits : Bool} {t : Token} {ts : List Token} :
    t.isBracket = false → t.isPunctuation ";" = false →
    Head stop (some t) params (inits || (t.isPunctuation ":" && params)) ts →
    Head stop previous? params inits (t :: ts)
  | group {previous? : Option Token} {params inits : Bool} {opener close : Token}
    {inside ts : List Token} :
    opener.text ∈ brackets → opener.isPunctuation opener.text = true →
    close.isPunctuation (closer opener.text) = true → Nested inside →
    (opener.isPunctuation "\x7b" = true → initializes previous? inits = true) →
    Head stop (some close) (params || opener.isPunctuation "(") inits ts →
    Head stop previous? params inits (opener :: (inside ++ close :: ts))

theorem Extent.bracesInitialize_eq (e : Extent) :
    e.bracesInitialize = initializes e.passed.head? e.inInitializers := by
  unfold bracesInitialize
  cases e.passed <;> rfl

namespace Head

variable {stop : Token} {previous? : Option Token} {params inits : Bool} {ts : List Token}

theorem split (h : Head stop previous? params inits ts) {e : Extent} (hGroup : e.group? = none)
    (hPrevious : e.passed.head? = previous?) (hParams : e.seenParams = params)
    (hInits : e.inInitializers = inits) (rest : List Token) :
    e.split (ts ++ stop :: rest) = .ok (e.passed.reverse ++ ts, stop :: rest) := by
  induction h generalizing e with
  | done hStop =>
    have hEnds : e.endsAt stop = true := by
      rw [Extent.endsAt, e.bracesInitialize_eq, hPrevious, hInits]
      rcases hStop with hSemicolon | ⟨hBrace, hNone⟩
      · simp [hSemicolon]
      · simp [hBrace, hNone]
    rw [List.nil_append, Extent.split, hGroup]
    simp [hEnds]
  | @plain _ _ _ t ts hPlain hSemicolon _ ih =>
    have hMark (bracket : String) (hBracket : bracket ∈ brackets) :=
      Token.isPunctuation_of_isBracket hPlain hBracket
    have hRound := (hMark "(" (by simp [brackets])).1
    have hSquare := (hMark "[" (by simp [brackets])).1
    have hCurly := (hMark "\x7b" (by simp [brackets])).1
    have hClose : t.isPunctuation "\x7d" = false := (hMark "\x7b" (by simp [brackets])).2
    have hEnds : e.endsAt t = false := by
      simp [Extent.endsAt, hSemicolon, hCurly, hClose]
    have hStep : e.passOutside t = { e.pass t with
        inInitializers := e.inInitializers || (t.isPunctuation ":" && e.seenParams) } := by
      simp [Extent.passOutside, hRound, hSquare, hCurly]
    rw [List.cons_append, Extent.split, hGroup]
    simp only [hEnds, Bool.false_eq_true, if_false]
    rw [ih (by rw [hStep]; exact hGroup) (by rw [hStep]; rfl) (by rw [hStep]; exact hParams)
      (by rw [hStep, hInits, hParams]), e.passOutside_passed]
    simp
  | @group previous? _ _ opener close inside ts hText hOpen hClose hInside hInitializes _ ih =>
    have hEnds : e.endsAt opener = false := by
      have hMarks := Token.isPunctuation_eq_decide hOpen
      rw [Extent.endsAt, e.bracesInitialize_eq, hPrevious, hInits]
      rcases Token.brackets_cases hText with h | h | h
      · simp [hMarks, h]
      · simp [hMarks, h]
      · rw [hInitializes (by simp [hMarks, h])]
        simp [hMarks, h]
    rw [List.cons_append, List.append_assoc, List.cons_append,
      Extent.split_bracketed hGroup hEnds hText hOpen hClose hInside]
    rw [@ih ⟨close :: (inside.reverse ++ opener :: e.passed), none,
      e.seenParams || opener.isPunctuation "(", e.inInitializers⟩ rfl rfl (by rw [← hParams]) hInits]
    simp

theorem of_previous (h : Head stop previous? params inits ts) {other? : Option Token}
    (hSame : initializes other? inits = initializes previous? inits) :
    Head stop other? params inits ts := by
  cases h with
  | done hStop => exact .done (by rwa [hSame])
  | plain hPlain hSemicolon hRest => exact .plain hPlain hSemicolon hRest
  | group hText hOpen hClose hInside hInitializes hRest =>
    exact .group hText hOpen hClose hInside (by rwa [hSame]) hRest

theorem append_plain {front : List Token} (hPlain : ∀ t ∈ front, t.isBracket = false ∧
      t.isPunctuation ";" = false ∧ t.isPunctuation ":" = false)
    (h : ∀ previous? : Option Token, Head stop previous? params false ts) (previous? : Option Token) :
    Head stop previous? params false (front ++ ts) := by
  induction front generalizing previous? with
  | nil => exact h previous?
  | cons t front ih =>
    obtain ⟨⟨hBracket, hSemicolon, hColon⟩, hRest⟩ := List.forall_mem_cons.mp hPlain
    refine .plain hBracket hSemicolon ?_
    rw [hColon]
    exact ih hRest (some t)

end Head

theorem splitDeclaration_head {stop : Token} {ts : List Token} (h : Head stop none false false ts)
    (rest : List Token) : splitDeclaration (ts ++ stop :: rest) = .ok (ts, stop :: rest) :=
  h.split rfl rfl rfl rfl rest

end Declaration

end SkeletonWeave
