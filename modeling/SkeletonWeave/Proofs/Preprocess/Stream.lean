import SkeletonWeave.Declaration.Batch
import SkeletonWeave.Proofs.Token.Place

/-!
# The stream of a batch

Every token of a batch comes from one of its files. Files that are included
stand between the tokens of the file around them, but the tokens of one file
keep their order, because no file is read twice under one number.
-/

set_option autoImplicit false

namespace SkeletonWeave

namespace Preprocess

def tokensOf (file : Nat) (ts : List Token) : List Token :=
  ts.filter (·.span.file == file)

/-- Whether tokens are drawn from files that are numbered from `first` on: each comes from one of
them, and those of one file come in the order in which it has them. -/
structure Drawn (first : Nat) (files : List Source.File) (ts : List Token) : Prop where
  numbered : files.map (·.id) = List.range' first files.length
  home : ∀ t ∈ ts, first ≤ t.span.file ∧ t.span.file < first + files.length
  order : ∀ f ∈ files, ∃ lexed, Token.lex f.id f.path f.text = .ok lexed ∧
    (tokensOf f.id ts).Sublist lexed

theorem tokensOf_append (file : Nat) (ts us : List Token) :
    tokensOf file (ts ++ us) = tokensOf file ts ++ tokensOf file us :=
  List.filter_append ts us

theorem tokensOf_eq_nil {file : Nat} {ts : List Token} (h : ∀ t ∈ ts, t.span.file ≠ file) :
    tokensOf file ts = [] := by
  rw [tokensOf, List.filter_eq_nil_iff]
  intro t ht
  simpa using h t ht

theorem tokensOf_eq_self {file : Nat} {ts : List Token} (h : ∀ t ∈ ts, t.span.file = file) :
    tokensOf file ts = ts := by
  rw [tokensOf, List.filter_eq_self]
  intro t ht
  simpa using h t ht

namespace Drawn

theorem id_range {first : Nat} {files : List Source.File} {ts : List Token}
    (h : Drawn first files ts) : ∀ f ∈ files, first ≤ f.id ∧ f.id < first + files.length := by
  intro f hf
  have hMem : f.id ∈ files.map (·.id) := List.mem_map_of_mem hf
  rw [h.numbered, List.mem_range'_1] at hMem
  exact hMem

theorem none (first : Nat) : Drawn first [] [] where
  numbered := rfl
  home := by simp
  order := by simp

theorem append {first : Nat} {files later : List Source.File} {ts us : List Token}
    (hFirst : Drawn first files ts) (hLater : Drawn (first + files.length) later us) :
    Drawn first (files ++ later) (ts ++ us) where
  numbered := by
    rw [List.map_append, hFirst.numbered, hLater.numbered, List.length_append,
      List.range'_append_1]
  home := by
    intro t ht
    rw [List.length_append]
    rcases List.mem_append.mp ht with ht | ht
    · have := hFirst.home t ht
      omega
    · have := hLater.home t ht
      omega
  order := by
    intro f hf
    rcases List.mem_append.mp hf with hf | hf
    · obtain ⟨lexed, hLex, hOrder⟩ := hFirst.order f hf
      have hNone : tokensOf f.id us = [] := by
        apply tokensOf_eq_nil
        intro u hu
        have := hLater.home u hu
        have := hFirst.id_range f hf
        omega
      refine ⟨lexed, hLex, ?_⟩
      rw [tokensOf_append, hNone, List.append_nil]
      exact hOrder
    · obtain ⟨lexed, hLex, hOrder⟩ := hLater.order f hf
      have hNone : tokensOf f.id ts = [] := by
        apply tokensOf_eq_nil
        intro t ht
        have := hFirst.home t ht
        have := hLater.id_range f hf
        omega
      refine ⟨lexed, hLex, ?_⟩
      rw [tokensOf_append, hNone, List.nil_append]
      exact hOrder

theorem around {f : Source.File} {included : List Source.File} {ts lexed : List Token}
    (hIncluded : Drawn (f.id + 1) included (ts.filter (·.span.file != f.id)))
    (hLex : Token.lex f.id f.path f.text = .ok lexed) (hOwn : (tokensOf f.id ts).Sublist lexed) :
    Drawn f.id (f :: included) ts where
  numbered := by
    rw [List.map_cons, hIncluded.numbered, List.length_cons, List.range'_succ]
  home := by
    intro t ht
    rw [List.length_cons]
    by_cases hFile : t.span.file = f.id
    · omega
    · have := hIncluded.home t (List.mem_filter.mpr ⟨ht, by simpa using hFile⟩)
      omega
  order := by
    intro g hg
    rcases List.mem_cons.mp hg with rfl | hg
    · exact ⟨lexed, hLex, hOwn⟩
    · obtain ⟨lexed, hLex, hOrder⟩ := hIncluded.order g hg
      refine ⟨lexed, hLex, ?_⟩
      have hOther : tokensOf g.id (ts.filter (·.span.file != f.id)) = tokensOf g.id ts := by
        have := hIncluded.id_range g hg
        rw [tokensOf, tokensOf, List.filter_filter]
        apply List.filter_congr
        intro t _
        by_cases hFile : t.span.file = g.id
        · have hApart : g.id ≠ f.id := by omega
          simp [hFile, hApart]
        · simp [hFile]
      rw [← hOther]
      exact hOrder

end Drawn

def Extends (s s' : State) : Prop :=
  ∃ files ts, s'.files = s.files ++ files ∧ s'.tokens.toList = s.tokens.toList ++ ts ∧
    Drawn s.files.length files ts

/-- Whether a batch has read the tokens `own` of the file with a number, and whatever they
include. -/
def Continues (id : Nat) (own : List Token) (s s' : State) : Prop :=
  ∃ files ts, s'.files = s.files ++ files ∧ s'.tokens.toList = s.tokens.toList ++ ts ∧
    Drawn s.files.length files (ts.filter (·.span.file != id)) ∧ (tokensOf id ts).Sublist own

namespace Extends

theorem of_same {s s' : State} (hFiles : s'.files = s.files) (hTokens : s'.tokens = s.tokens) :
    Extends s s' :=
  ⟨[], [], by rw [hFiles, List.append_nil], by rw [hTokens, List.append_nil], .none _⟩

theorem trans {s s' s'' : State} (h : Extends s s') (h' : Extends s' s'') : Extends s s'' := by
  obtain ⟨files, ts, hFiles, hTokens, hDrawn⟩ := h
  obtain ⟨later, us, hFiles', hTokens', hDrawn'⟩ := h'
  rw [hFiles, List.length_append] at hDrawn'
  refine ⟨files ++ later, ts ++ us, ?_, ?_, hDrawn.append hDrawn'⟩
  · rw [hFiles', hFiles, List.append_assoc]
  · rw [hTokens', hTokens, List.append_assoc]

end Extends

namespace Continues

theorem of_same {s s' : State} (id : Nat) (own : List Token) (hFiles : s'.files = s.files)
    (hTokens : s'.tokens = s.tokens) : Continues id own s s' :=
  ⟨[], [], by rw [hFiles, List.append_nil], by rw [hTokens, List.append_nil], .none _,
    List.nil_sublist own⟩

theorem trans {id : Nat} {own rest : List Token} {s s' s'' : State} (h : Continues id own s s')
    (h' : Continues id rest s' s'') : Continues id (own ++ rest) s s'' := by
  obtain ⟨files, ts, hFiles, hTokens, hDrawn, hOwn⟩ := h
  obtain ⟨later, us, hFiles', hTokens', hDrawn', hRest⟩ := h'
  rw [hFiles, List.length_append] at hDrawn'
  refine ⟨files ++ later, ts ++ us, ?_, ?_, ?_, ?_⟩
  · rw [hFiles', hFiles, List.append_assoc]
  · rw [hTokens', hTokens, List.append_assoc]
  · rw [List.filter_append]
    exact hDrawn.append hDrawn'
  · rw [tokensOf_append]
    exact hOwn.append hRest

theorem of_extends {id : Nat} (own : List Token) {s s' : State} (hOld : id < s.files.length)
    (h : Extends s s') : Continues id own s s' := by
  obtain ⟨files, ts, hFiles, hTokens, hDrawn⟩ := h
  have hNew : ∀ t ∈ ts, t.span.file ≠ id := by
    intro t ht
    have := hDrawn.home t ht
    omega
  refine ⟨files, ts, hFiles, hTokens, ?_, ?_⟩
  · rw [List.filter_eq_self.mpr]
    · exact hDrawn
    · intro t ht
      simpa using hNew t ht
  · rw [tokensOf_eq_nil hNew]
    exact List.nil_sublist own

theorem of_push {s s' : State} {t : Token} (hFiles : s'.files = s.files)
    (hTokens : s'.tokens = s.tokens.push t) : Continues t.span.file [t] s s' :=
  ⟨[], [t], by rw [hFiles, List.append_nil], by rw [hTokens, Array.toList_push],
    by simpa using Drawn.none _, List.filter_sublist⟩

end Continues

theorem directiveAction_proceed {fs : FileSystem} {options : ReadOptions} {dir? : Option String}
    {opened opened' : List Conditional} {s s' : State} {name : String} {rest : List Char}
    (h : directiveAction fs options dir? opened s name rest = .proceed opened' s') :
    s'.files = s.files ∧ s'.seen = s.seen ∧ s'.tokens = s.tokens := by
  unfold directiveAction at h
  repeat' split at h
  all_goals cases h
  all_goals exact ⟨rfl, rfl, rfl⟩

theorem conditionalAction_proceed {fs : FileSystem} {options : ReadOptions} {dir? : Option String}
    {opened opened' : List Conditional} {s s' : State} {t : Token}
    (h : conditionalAction fs options dir? opened s t = .proceed opened' s') :
    s'.files = s.files ∧ s'.seen = s.seen ∧ s'.tokens = s.tokens := by
  rcases opened with - | ⟨c, outer⟩ <;> simp only [conditionalAction] at h
  all_goals repeat' split at h
  all_goals first | exact directiveAction_proceed h | cases h
  all_goals exact ⟨rfl, rfl, rfl⟩

theorem action_proceed {fs : FileSystem} {options : ReadOptions} {dir? : Option String}
    {opened opened' : List Conditional} {s s' : State} {t : Token}
    (h : action fs options dir? opened s t = .proceed opened' s') :
    s'.files = s.files ∧ s'.seen = s.seen ∧ (s'.tokens = s.tokens ∨ s'.tokens = s.tokens.push t ∧
      t.kind ≠ .directive ∧ ¬(t.kind = .identifier ∧ t.text ∈ options.ignoredMacros)) := by
  unfold action at h
  split at h
  · obtain ⟨hFiles, hSeen, hTokens⟩ := conditionalAction_proceed h
    exact ⟨hFiles, hSeen, .inl hTokens⟩
  · next hKind =>
    split at h
    · next hJoins =>
      cases h
      refine ⟨rfl, rfl, .inr ⟨rfl, hKind, ?_⟩⟩
      rintro ⟨hIdentifier, hIgnored⟩
      simp [hIdentifier, hIgnored] at hJoins
    · cases h
      exact ⟨rfl, rfl, .inl rfl⟩

theorem runTokens_continues {fs : FileSystem} {options : ReadOptions}
    {enter : String → State → Progress} {file : String} {dir? : Option String}
    (hEnter : ∀ path s s', enter path s = ⟨s', none⟩ → Extends s s') {id : Nat}
    {opened : List Conditional} {s s' : State} {ts : List Token} (hOld : id < s.files.length)
    (hHome : ∀ t ∈ ts, t.span.file = id)
    (h : runTokens fs options enter file dir? opened s ts = ⟨s', none⟩) : Continues id ts s s' := by
  induction ts generalizing opened s with
  | nil =>
    unfold runTokens at h
    split at h
    · cases h
      exact .of_same id [] rfl rfl
    · cases h
  | cons t ts ih =>
    have hRest : ∀ u ∈ ts, u.span.file = id := fun u hu => hHome u (List.mem_cons_of_mem t hu)
    unfold runTokens at h
    split at h
    · next opened' next hAction =>
      obtain ⟨hFiles, -, hTokens⟩ := action_proceed hAction
      have hFirst : Continues id [t] s next := by
        rcases hTokens with hSame | ⟨hPush, -, -⟩
        · exact .of_same id [t] hFiles hSame
        · rw [← hHome t List.mem_cons_self]
          exact .of_push hFiles hPush
      exact hFirst.trans (ih (by rw [hFiles]; exact hOld) hRest h)
    · next path _ =>
      split at h
      · next next hRead =>
        -- the files that are entered stand in the place of the token, and hold none of this file
        have hOther := hEnter path s next hRead
        have hFirst : Continues id [t] s next := .of_extends [t] hOld hOther
        obtain ⟨files, _, hFiles, -⟩ := hOther
        have hOld' : id < next.files.length := by
          rw [hFiles, List.length_append]
          omega
        exact hFirst.trans (ih hOld' hRest h)
      · cases h
    · cases h

theorem runText_extends {fs : FileSystem} {options : ReadOptions}
    {enter : String → State → Progress}
    (hEnter : ∀ path s s', enter path s = ⟨s', none⟩ → Extends s s') {path text : String}
    {s s' : State} (h : runText fs options enter path text s = ⟨s', none⟩) : Extends s s' := by
  simp only [runText] at h
  split at h
  · cases h
  · next lexed hLex =>
    obtain ⟨included, ts, hFiles, hTokens, hDrawn, hOwn⟩ :=
      runTokens_continues hEnter (by simp) (Token.file_of_lex hLex) h
    rw [List.length_append, List.length_singleton] at hDrawn
    let f : Source.File := ⟨s.files.length, path, text⟩
    refine ⟨f :: included, ts, ?_, hTokens, Drawn.around (f := f) hDrawn hLex hOwn⟩
    rw [hFiles, List.append_assoc]
    rfl

theorem readFile_extends {fs : FileSystem} {options : ReadOptions} {depth : Nat} {path : String}
    {s s' : State} (h : readFile fs options depth path s = ⟨s', none⟩) : Extends s s' := by
  induction depth generalizing path s s' with
  | zero =>
    cases h
    exact .of_same rfl rfl
  | succ depth ih =>
    simp only [readFile] at h
    split at h
    · cases h
      exact .of_same rfl rfl
    · split at h
      · cases h
      · have hSeen : Extends s { s with seen := (fs.canonical? path).getD path :: s.seen } :=
          .of_same rfl rfl
        exact hSeen.trans (runText_extends (fun _ _ _ => ih) h)

end Preprocess

namespace Batch

open Preprocess (Extends Drawn)

theorem runSteps_extends {α : Type} {step : α → Preprocess.State → Preprocess.Progress}
    (hStep : ∀ a s s', step a s = ⟨s', none⟩ → Extends s s') {steps : List α}
    {s s' : Preprocess.State} (h : runSteps step steps s = .ok s') : Extends s s' := by
  induction steps generalizing s with
  | nil =>
    cases h
    exact .of_same rfl rfl
  | cons a steps ih =>
    unfold runSteps at h
    split at h
    · next next hNext => exact (hStep a s next hNext).trans (ih h)
    · cases h

theorem drawn_of_roots {fs : FileSystem} {options : ReadOptions} {roots : List String}
    {s : Preprocess.State}
    (h : runSteps (Preprocess.addRoot fs options) roots (.initial options) = .ok s) :
    Drawn 0 s.files s.tokens.toList := by
  obtain ⟨files, ts, hFiles, hTokens, hDrawn⟩ :=
    runSteps_extends (fun _ _ _ => Preprocess.readFile_extends) h
  rw [hFiles, hTokens]
  exact hDrawn

end Batch

end SkeletonWeave
