import Mathlib.Data.List.Nodup
import ScopedLisp.Proofs.Form.Parts

/-!
# ScopedLisp.Proofs.Form.Pairs

Code that stands for other code.  A `Respelling` says which texts of atoms stand for one another,
and `CodePairs` which code does: lists item by item, atoms by their texts.  The checks of shapes
cannot tell such code apart: they take both apart in the same way, or refuse both with the same
error (`pairs_conditional` and the statements after it).
-/

namespace ScopedLisp

/-- Both have a value, and the values are related, or both have an error, and the errors are. -/
inductive Agree {ε ε' α β : Type} (error : ε → ε' → Prop) (value : α → β → Prop) :
    Except ε α → Except ε' β → Prop where
  | ok {a : α} {b : β} : value a b → Agree error value (.ok a) (.ok b)
  | error {e : ε} {e' : ε'} : error e e' → Agree error value (.error e) (.error e')

namespace Agree

variable {ε ε' α β γ δ : Type} {error : ε → ε' → Prop} {value : α → β → Prop} {value' : γ → δ → Prop}

/-- Results that agree, and go on alike, agree in the end. -/
theorem bind {x : Except ε α} {y : Except ε' β} {next : α → Except ε γ} {next' : β → Except ε' δ}
    (h : Agree error value x y)
    (hnext : ∀ a b, value a b → Agree error value' (next a) (next' b)) :
    Agree error value' (x >>= next) (y >>= next') := by
  cases h with
  | ok h => exact hnext _ _ h
  | error h => exact .error h

theorem map {x : Except ε α} {y : Except ε' β} {f : α → γ} {g : β → δ} (h : Agree error value x y)
    (hvalue : ∀ a b, value a b → value' (f a) (g b)) : Agree error value' (x.map f) (y.map g) := by
  cases h with
  | ok h => exact .ok (hvalue _ _ h)
  | error h => exact .error h

/-- Results agree as well where errors have to agree less. -/
theorem mono_error {error' : ε → ε' → Prop} {x : Except ε α} {y : Except ε' β} (h : Agree error value x y)
    (herror : ∀ e e', error e e' → error' e e') : Agree error' value x y := by
  cases h with
  | ok h => exact .ok h
  | error h => exact .error (herror _ _ h)

theorem refl {error : ε → ε → Prop} {value : α → α → Prop} (herror : ∀ e, error e e)
    (hvalue : ∀ a, value a a) (x : Except ε α) : Agree error value x x := by
  cases x with
  | ok a => exact .ok (hvalue a)
  | error e => exact .error (herror e)

/-- Both fail if they begin alike, whatever their errors quote. -/
theorem bind_error {error : ε → ε → Prop} (herror : ∀ e, error e e) {x y : Except ε γ} (same : x = y)
    (quote : γ → ε) : Agree error value (x.bind fun c => .error (quote c)) (y.bind fun c => .error (quote c)) := by
  rw [same]
  cases y with
  | ok c => exact .error (herror (quote c))
  | error e => exact .error (herror e)

end Agree

/-- A row of images is the row that a map makes. -/
theorem map_eq_of_forall₂ {α β : Type} {f : α → β} {as : List α} {bs : List β}
    (h : List.Forall₂ (fun a b => b = f a) as bs) : bs = as.map f := by
  induction h with
  | nil => rfl
  | cons h _ ih => rw [h, ih, List.map_cons]

/-- Texts of atoms that stand for one another: they are the same literal and begin the same form, and
what stands for two texts is as different as they are. -/
structure Respelling where
  text : String → String → Prop
  literal {s t : String} : text s t → Literal.ofText s = Literal.ofText t
  keyword {s t : String} : text s t → Keyword.ofName? s = Keyword.ofName? t
  isElse {s t : String} : text s t → (s = "else" ↔ t = "else")
  biUnique : Relator.BiUnique text

/-- Every text stands for itself. -/
def Respelling.refl : Respelling where
  text s t := s = t
  literal h := congrArg _ h
  keyword h := congrArg _ h
  isElse h := by rw [h]
  biUnique := ⟨fun _ _ _ h h' => h.trans h'.symm, fun _ _ _ h h' => h.symm.trans h'⟩

theorem Value.ne_list_of_data {v : Value} (h : v.isCode = false) (items : List Value) :
    v ≠ .list items := by
  rintro rfl
  cases h

theorem Value.ne_atom_of_data {v : Value} (h : v.isCode = false) (s : String) : v ≠ .atom s := by
  rintro rfl
  cases h

/-- How two values that stand for one another are built. -/
inductive Paired (text : String → String → Prop) (code : Value → Value → Prop) :
    Value → Value → Prop where
  | atom {s t : String} : text s t → Paired text code (.atom s) (.atom t)
  | list {vs ws : List Value} : List.Forall₂ code vs ws → Paired text code (.list vs) (.list ws)
  | array {vs ws : List Value} : List.Forall₂ code vs ws → Paired text code (.array vs) (.array ws)
  | data {v w : Value} : v.isCode = false → w.isCode = false → Paired text code v w

/-- Code that stands for other code, under a respelling of its atoms. -/
structure CodePairs (spelling : Respelling) where
  rel : Value → Value → Prop
  parts {v w : Value} : rel v w → Paired spelling.text rel v w
  list {vs ws : List Value} : List.Forall₂ rel vs ws → rel (.list vs) (.list ws)

namespace CodePairs

variable {spelling : Respelling} {codes : CodePairs spelling} {v w : Value}

/-- Code that stands for one another as a body does: it is paired, or a `begin` was put around several
forms that are. -/
inductive Body (codes : CodePairs spelling) : Value → Value → Prop where
  | code {v w : Value} : codes.rel v w → Body codes v w
  | sequence {vs ws : List Value} : List.Forall₂ codes.rel vs ws →
      Body codes (.list (.atom "begin" :: vs)) (.list (.atom "begin" :: ws))

/-- Either both are lists, or neither is one. -/
theorem list_or (h : codes.rel v w) :
    (∃ vs ws, v = .list vs ∧ w = .list ws ∧ List.Forall₂ codes.rel vs ws) ∨
    (∀ vs, v ≠ .list vs) ∧ ∀ ws, w ≠ .list ws := by
  cases codes.parts h with
  | list items => exact Or.inl ⟨_, _, rfl, rfl, items⟩
  | atom _ => exact Or.inr ⟨nofun, nofun⟩
  | array _ => exact Or.inr ⟨nofun, nofun⟩
  | data hv hw => exact Or.inr ⟨Value.ne_list_of_data hv, Value.ne_list_of_data hw⟩

/-- Either both are atoms, or neither is one. -/
theorem atom_or (h : codes.rel v w) :
    (∃ s t, v = .atom s ∧ w = .atom t ∧ spelling.text s t) ∨
    (∀ s, v ≠ .atom s) ∧ ∀ t, w ≠ .atom t := by
  cases codes.parts h with
  | atom text => exact Or.inl ⟨_, _, rfl, rfl, text⟩
  | list _ => exact Or.inr ⟨nofun, nofun⟩
  | array _ => exact Or.inr ⟨nofun, nofun⟩
  | data hv hw => exact Or.inr ⟨Value.ne_atom_of_data hv, Value.ne_atom_of_data hw⟩

mutual
/-- Code is nested as deeply as what stands for it. -/
theorem height_eq : ∀ (v : Value) {w : Value}, codes.rel v w → v.height = w.height
  | v, w, h => by
      cases hp : v with
      | list vs =>
          rcases list_or h with ⟨_, ws, eq, rfl, items⟩ | ⟨notList, _⟩
          · cases hp.symm.trans eq
            simp only [Value.height]
            rw [heights_eq vs items]
          · exact absurd hp (notList vs)
      | array vs =>
          cases hp
          cases codes.parts h with
          | array items =>
              simp only [Value.height]
              rw [heights_eq vs items]
          | data hv _ => cases hv
      | atom s =>
          cases hp
          cases codes.parts h with
          | atom _ => rfl
          | data hv _ => cases hv
      | _ =>
          cases hp
          cases codes.parts h with
          | data _ hw => cases w <;> first | rfl | cases hw

/-- Rows of code that correspond are nested equally deep. -/
theorem heights_eq : ∀ (vs : List Value) {ws : List Value}, List.Forall₂ codes.rel vs ws →
    Value.heightItems vs = Value.heightItems ws
  | [], _, .nil => rfl
  | v :: vs, _, .cons h hs => by
      simp only [Value.heightItems]
      rw [height_eq v h, heights_eq vs hs]
end

end CodePairs

/-! ## Checks of shape -/

namespace Shape

variable {spelling : Respelling} {codes : CodePairs spelling} {α β γ δ : Type}

/-- Errors of shape that stand for one another: the same one, showing code that stands for one another;
or that of a procedure definition without a body, which names the procedure. -/
inductive ErrorPair (codes : CodePairs spelling) : ShapeError Value → ShapeError Value → Prop where
  | same {e e' : ShapeError Value} : (e.map fun _ => ()) = (e'.map fun _ => ()) →
      Option.Rel codes.rel e.found? e'.found? → ErrorPair codes e e'
  | body {s t : String} : spelling.text s t →
      ErrorPair codes (.withoutBody ("define " ++ s)) (.withoutBody ("define " ++ t))

/-- The two checks end alike. -/
abbrev Pair (codes : CodePairs spelling) (wanted : α → β → Prop) : Checked α → Checked β → Prop :=
  Agree (ErrorPair codes) wanted

/-- Names and the code beside them. -/
def BindingPair (codes : CodePairs spelling) (b c : String × Value) : Prop :=
  spelling.text b.1 c.1 ∧ codes.rel b.2 c.2

/-- Definitions that stand for one another. -/
inductive DefinitionPair (codes : CodePairs spelling) : Definition → Definition → Prop where
  | value {s t : String} {v w : Value} : spelling.text s t → codes.rel v w →
      DefinitionPair codes (.value s v) (.value t w)
  | procedure {s t : String} {ss ts : List String} {v w : Value} : spelling.text s t →
      List.Forall₂ spelling.text ss ts → codes.Body v w →
      DefinitionPair codes (.procedure s ss v) (.procedure t ts w)

theorem ErrorPair.plain (e : ShapeError Value) (h : e.found? = none) : ErrorPair codes e e := by
  refine .same rfl ?_
  rw [h]
  exact .none

/-! ### Parts that forms share -/

theorem nameOf_of_notAtom (what : String) {v : Value} (h : ∀ s, v ≠ .atom s) :
    nameOf what v = .error (.notSymbol what v) := by
  cases v with
  | atom s => exact absurd rfl (h s)
  | _ => rfl

/-- Code that corresponds is taken for names that do. -/
theorem pairs_nameOf (what : String) {v w : Value} (h : codes.rel v w) :
    Pair codes spelling.text (nameOf what v) (nameOf what w) := by
  have refused : Pair codes spelling.text (.error (.notSymbol what v)) (.error (.notSymbol what w)) :=
    .error (.same rfl (.some h))
  rcases codes.atom_or h with ⟨s, t, rfl, rfl, text⟩ | ⟨hv, hw⟩
  · simp only [nameOf, ← spelling.literal text]
    cases Literal.ofText s with
    | name => exact .ok text
    | oversized digits => exact .error (.plain _ rfl)
    | _ => exact refused
  · rw [nameOf_of_notAtom what hv, nameOf_of_notAtom what hw]
    exact refused

/-- Rows of code that correspond are taken for rows of names that do. -/
theorem pairs_namesOf (what : String) {vs ws : List Value} (h : List.Forall₂ codes.rel vs ws) :
    Pair codes (List.Forall₂ spelling.text) (namesOf what vs) (namesOf what ws) := by
  induction h with
  | nil => exact .ok .nil
  | cons h _ ih =>
      refine (pairs_nameOf what h).bind fun s t text => ?_
      exact ih.bind fun ss ts texts => .ok (.cons text texts)

theorem formals_of_notList (form : String) {v : Value} (h : ∀ items, v ≠ .list items) :
    formals form v = .error (.parameterList form v) := by
  cases v with
  | list items => exact absurd rfl (h items)
  | _ => rfl

/-- Code that corresponds is taken for parameters that do. -/
theorem pairs_formals (form : String) {v w : Value} (h : codes.rel v w) :
    Pair codes (List.Forall₂ spelling.text) (formals form v) (formals form w) := by
  rcases codes.list_or h with ⟨vs, ws, rfl, rfl, items⟩ | ⟨hv, hw⟩
  · refine (pairs_namesOf _ items).bind fun ss ts texts => ?_
    have nodup : ss.Nodup ↔ ts.Nodup := List.rel_nodup spelling.biUnique texts
    simp only [nodup]
    split
    · exact .ok texts
    · exact .error (.same rfl (.some h))
  · rw [formals_of_notList form hv, formals_of_notList form hw]
    exact .error (.same rfl (.some h))

theorem bindingOf_of_notList (form : String) {v : Value} (h : ∀ items, v ≠ .list items) :
    bindingOf form v = .error (.binding form v) := by
  cases v with
  | list items => exact absurd rfl (h items)
  | _ => rfl

/-- Code that corresponds is taken for bindings that do. -/
theorem pairs_bindingOf (form : String) {v w : Value} (h : codes.rel v w) :
    Pair codes (BindingPair codes) (bindingOf form v) (bindingOf form w) := by
  have refused : Pair codes (BindingPair codes) (.error (.binding form v)) (.error (.binding form w)) :=
    .error (.same rfl (.some h))
  rcases codes.list_or h with ⟨vs, ws, rfl, rfl, items⟩ | ⟨hv, hw⟩
  · cases items with
    | nil => exact refused
    | cons name items =>
        cases items with
        | nil => exact refused
        | cons value items =>
            cases items with
            | nil => exact (pairs_nameOf _ name).bind fun s t text => .ok ⟨text, value⟩
            | cons _ _ => exact refused
  · rw [bindingOf_of_notList form hv, bindingOf_of_notList form hw]
    exact refused

/-- Rows of code that correspond are taken for rows of bindings that do. -/
theorem pairs_bindingsOf (form : String) {vs ws : List Value} (h : List.Forall₂ codes.rel vs ws) :
    Pair codes (List.Forall₂ (BindingPair codes)) (bindingsOf form vs) (bindingsOf form ws) := by
  induction h with
  | nil => exact .ok .nil
  | cons h _ ih =>
      refine (pairs_bindingOf form h).bind fun b c binding => ?_
      exact ih.bind fun bs cs bindings => .ok (.cons binding bindings)

/-- The names of paired bindings. -/
theorem texts_of_bindings {bs cs : List (String × Value)}
    (h : List.Forall₂ (BindingPair codes) bs cs) :
    List.Forall₂ spelling.text (bs.map (·.1)) (cs.map (·.1)) := by
  simp only [List.forall₂_map_left_iff, List.forall₂_map_right_iff]
  exact h.imp fun _ _ binding => binding.1

/-- The code of paired bindings. -/
theorem codes_of_bindings {bs cs : List (String × Value)}
    (h : List.Forall₂ (BindingPair codes) bs cs) :
    List.Forall₂ codes.rel (bs.map (·.2)) (cs.map (·.2)) := by
  simp only [List.forall₂_map_left_iff, List.forall₂_map_right_iff]
  exact h.imp fun _ _ binding => binding.2

theorem bindings_of_notList (form : String) (duplicates : Bool) {v : Value}
    (h : ∀ items, v ≠ .list items) :
    bindings form duplicates v = .error (.bindingList form v) := by
  cases v with
  | list items => exact absurd rfl (h items)
  | _ => rfl

/-- Code that corresponds is taken for lists of bindings that do, or refused for the same reason. -/
theorem pairs_bindings (form : String) (duplicates : Bool) {v w : Value} (h : codes.rel v w) :
    Pair codes (List.Forall₂ (BindingPair codes)) (bindings form duplicates v)
      (bindings form duplicates w) := by
  rcases codes.list_or h with ⟨vs, ws, rfl, rfl, items⟩ | ⟨hv, hw⟩
  · refine (pairs_bindingsOf form items).bind fun bs cs bindings => ?_
    have nodup : (bs.map (·.1)).Nodup ↔ (cs.map (·.1)).Nodup :=
      List.rel_nodup spelling.biUnique (texts_of_bindings bindings)
    simp only [nodup]
    split
    · exact .ok bindings
    · exact .error (.same rfl (.some h))
  · rw [bindings_of_notList form duplicates hv, bindings_of_notList form duplicates hw]
    exact .error (.same rfl (.some h))

/-- Bodies of forms whose names may differ, so long as the errors of missing bodies are paired. -/
theorem pairs_body {form form' : String}
    (missing : ErrorPair codes (.withoutBody form) (.withoutBody form')) {vs ws : List Value}
    (h : List.Forall₂ codes.rel vs ws) : Pair codes codes.Body (body form vs) (body form' ws) := by
  cases h with
  | nil => exact .error missing
  | cons first rest =>
      cases rest with
      | nil => exact .ok (.code first)
      | cons second rest => exact .ok (.sequence (.cons first (.cons second rest)))

/-! ### The forms -/

/-- Operands of `if` that correspond have parts that do. -/
theorem pairs_conditional {vs ws : List Value} (h : List.Forall₂ codes.rel vs ws) :
    Pair codes (fun p q => codes.rel p.1 q.1 ∧ codes.rel p.2.1 q.2.1 ∧
      Option.Rel codes.rel p.2.2 q.2.2) (conditional vs) (conditional ws) := by
  have refused : ErrorPair codes .ifOperands .ifOperands := .plain _ rfl
  rcases h with _ | ⟨test, _ | ⟨positive, _ | ⟨negative, _ | _⟩⟩⟩
  · exact .error refused
  · exact .error refused
  · exact .ok ⟨test, positive, .none⟩
  · exact .ok ⟨test, positive, .some negative⟩
  · exact .error refused

/-- Operands of `lambda` that correspond have parameters and bodies that do. -/
theorem pairs_lambda {vs ws : List Value} (h : List.Forall₂ codes.rel vs ws) :
    Pair codes (fun p q => List.Forall₂ spelling.text p.1 q.1 ∧ codes.Body p.2 q.2) (lambda vs)
      (lambda ws) := by
  cases h with
  | nil => exact .error (.plain _ rfl)
  | cons parameters forms =>
      refine (pairs_formals _ parameters).bind fun ss ts texts => ?_
      exact (pairs_body (.plain _ rfl) forms).bind fun b c hbody => .ok ⟨texts, hbody⟩

theorem definition_of_notList {v : Value} (h : ∀ items, v ≠ .list items) (vs : List Value) :
    definition (v :: vs) =
      match vs with
      | [expr] => (nameOf "define name" v).bind fun name => .ok (.value name expr)
      | _ => .error (.defineOperands (.list (v :: vs))) := by
  cases v with
  | list items => exact absurd rfl (h items)
  | _ => rcases vs with _ | ⟨expr, _ | _⟩ <;> rfl

/-- Operands of `define` that correspond define alike. -/
theorem pairs_definition {vs ws : List Value} (h : List.Forall₂ codes.rel vs ws) :
    Pair codes (DefinitionPair codes) (definition vs) (definition ws) := by
  cases h with
  | nil => exact .error (.plain _ rfl)
  | @cons v w vs ws target forms =>
      rcases codes.list_or target with ⟨_, _, rfl, rfl, items⟩ | ⟨hv, hw⟩
      · cases items with
        | nil => exact .error (.plain _ rfl)
        | cons head parameters =>
            refine (pairs_nameOf _ head).bind fun s t text => ?_
            refine (pairs_formals _ (codes.list parameters)).bind fun ss ts texts => ?_
            exact (pairs_body (.body text) forms).bind fun b c hbody => .ok (.procedure text texts hbody)
      · have refused : ErrorPair codes (.defineOperands (.list (v :: vs)))
            (.defineOperands (.list (w :: ws))) := .same rfl (.some (codes.list (.cons target forms)))
        rw [definition_of_notList hv, definition_of_notList hw]
        rcases forms with _ | ⟨expr, _ | _⟩
        · exact .error refused
        · exact (pairs_nameOf _ target).bind fun s t text => .ok (.value text expr)
        · exact .error refused

/-- Operands of a binding form that correspond have bindings and bodies that do. -/
theorem pairs_letParts (form : String) (duplicates : Bool) {vs ws : List Value}
    (h : List.Forall₂ codes.rel vs ws) :
    Pair codes (fun p q => List.Forall₂ (BindingPair codes) p.1 q.1 ∧ codes.Body p.2 q.2)
      (letParts form duplicates vs) (letParts form duplicates ws) := by
  cases h with
  | nil => exact .error (.plain _ rfl)
  | cons spec forms =>
      refine (pairs_body (.plain _ rfl) forms).bind fun b c hbody => ?_
      exact (pairs_bindings form duplicates spec).bind fun bs cs bindings => .ok ⟨bindings, hbody⟩

/-! ### Words -/

theorem isElse_of_notAtom {v : Value} (h : ∀ s, v ≠ .atom s) : isElse v = false := by
  cases v with
  | atom s => exact absurd rfl (h s)
  | _ => rfl

/-- Code that corresponds is `else` together. -/
theorem isElse_eq {v w : Value} (h : codes.rel v w) : isElse v = isElse w := by
  rcases codes.atom_or h with ⟨s, t, rfl, rfl, text⟩ | ⟨hv, hw⟩
  · have same := spelling.isElse text
    by_cases hs : s = "else" <;> simp_all [isElse]
  · rw [isElse_of_notAtom hv, isElse_of_notAtom hw]

theorem ofHead?_of_notAtom {v : Value} (h : ∀ s, v ≠ .atom s) : Keyword.ofHead? v = none := by
  cases v with
  | atom s => exact absurd rfl (h s)
  | _ => rfl

/-- Code that corresponds begins the same special form, or none. -/
theorem ofHead?_eq {v w : Value} (h : codes.rel v w) : Keyword.ofHead? v = Keyword.ofHead? w := by
  rcases codes.atom_or h with ⟨s, t, rfl, rfl, text⟩ | ⟨hv, hw⟩
  · exact spelling.keyword text
  · rw [ofHead?_of_notAtom hv, ofHead?_of_notAtom hw]

/-- The word of a form is recognised by the form. -/
theorem eq_name_iff {text : String} {keyword : Keyword} :
    text = keyword.name ↔ Keyword.ofName? text = some keyword :=
  ⟨fun h => h ▸ Keyword.ofName?_name keyword, fun h => (Keyword.name_of_ofName? h).symm⟩

theorem isLambda_of_notList {v : Value} (h : ∀ items, v ≠ .list items) : isLambda v = false := by
  cases v with
  | list items => exact absurd rfl (h items)
  | _ => rfl

/-- A list is a procedure expression by its head alone. -/
theorem isLambda_list (head : Value) (items : List Value) :
    isLambda (.list (head :: items)) = decide (Keyword.ofHead? head = some .lambdaForm) := by
  cases head with
  | atom s =>
      simp only [isLambda, Keyword.ofHead?, ← eq_name_iff]
      rfl
  | _ => rfl

/-- Code that corresponds is a procedure expression together. -/
theorem isLambda_eq {v w : Value} (h : codes.rel v w) : isLambda v = isLambda w := by
  rcases codes.list_or h with ⟨_, _, rfl, rfl, items⟩ | ⟨hv, hw⟩
  · cases items with
    | nil => rfl
    | cons head _ => rw [isLambda_list, isLambda_list, ofHead?_eq head]
  · rw [isLambda_of_notList hv, isLambda_of_notList hw]

end Shape

end ScopedLisp
