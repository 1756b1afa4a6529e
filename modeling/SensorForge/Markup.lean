import Mathlib

/-! Trees of elements and characters, and a strict reader of the markup that stands for them:
every tag is closed by its name, and every reference is known. -/

namespace Markup

abbrev Text := List Char

/-- A text is one node for each of its characters; a tag has its attributes. -/
inductive Node
  | char (c : Char)
  | void (tag : Text)
  | element (tag : Text) (children : List Node)

def text (t : Text) : List Node := t.map Node.char

/-- The tag up to its attributes. -/
def nameOf (tag : Text) : Text := tag.takeWhile (· ≠ ' ')

mutual

/-- The characters of a node. -/
def Node.content : Node → Text
  | .char c => [c]
  | .void _ => []
  | .element _ children => content children

def content : List Node → Text
  | [] => []
  | n :: ns => n.content ++ content ns

end

mutual

/-- The elements in the order of their start tags. -/
def Node.elements : Node → List (Text × List Node)
  | .char _ => []
  | .void _ => []
  | .element tag children => (tag, children) :: elements children

def elements : List Node → List (Text × List Node)
  | [] => []
  | n :: ns => n.elements ++ elements ns

end

inductive Mode
  | text
  | tag (seen : Text)
  | reference (seen : Text)

/-- `done` is what has been read of the innermost open element, and `stack` has the others
around it, each with what stands before it. -/
structure Reader where
  mode : Mode := .text
  done : List Node := []
  stack : List (Text × List Node) := []

/-- What a language says of names: which elements have no end tag, and the references. -/
structure Language where
  isVoid : Text → Bool
  reference : Text → Option Char

section Reading

variable (L : Language)

def Reader.endTag (r : Reader) (tag : Text) : Option Reader :=
  match tag, r.stack with
  | '/' :: name, (opened, before) :: stack =>
    if name = nameOf opened then
      some { done := before ++ [.element opened r.done], stack }
    else none
  | '/' :: _, [] => none
  | _, _ =>
    if L.isVoid (nameOf tag) then some { r with mode := .text, done := r.done ++ [.void tag] }
    else some { stack := (tag, r.done) :: r.stack }

def Reader.step (r : Reader) (c : Char) : Option Reader :=
  match r.mode with
  | .text =>
    if c = '<' then some { r with mode := .tag [] }
    else if c = '&' then some { r with mode := .reference [] }
    else some { r with done := r.done ++ [.char c] }
  | .tag seen => if c = '>' then r.endTag L seen else some { r with mode := .tag (seen ++ [c]) }
  | .reference seen =>
    if c = ';' then
      (L.reference seen).map fun d => { r with mode := .text, done := r.done ++ [.char d] }
    else some { r with mode := .reference (seen ++ [c]) }

def run (s : Text) (r : Reader) : Option Reader := s.foldlM (Reader.step L) r

/-- The tree, if the markup is well formed. -/
def read (s : Text) : Option (List Node) :=
  (run L s {}).bind fun
    | ⟨.text, done, []⟩ => some done
    | _ => none

end Reading

def startTag (tag : Text) : Text := '<' :: (tag ++ ['>'])

def endTag (name : Text) : Text := '<' :: '/' :: (name ++ ['>'])

/-- An element with its start tag and its end tag. -/
def tagged (tag inner : Text) : Text := startTag tag ++ (inner ++ endTag (nameOf tag))

def referenceTo (name : Text) : Text := '&' :: (name ++ [';'])

/-- A tag that does not end early, and is not an end tag. -/
def IsTag (tag : Text) : Prop := '>' ∉ tag ∧ tag.head? ≠ some '/'

instance decidableIsTag (tag : Text) : Decidable (IsTag tag) :=
  inferInstanceAs (Decidable (_ ∧ _))

/-- Wherever it stands, the text adds these nodes. -/
def Represents (L : Language) (s : Text) (nodes : List Node) : Prop :=
  ∀ (rest : Text) (done : List Node) (stack : List (Text × List Node)),
    run L (s ++ rest) { done, stack } = run L rest { done := done ++ nodes, stack }

section Runs

variable {L : Language} {done : List Node} {stack : List (Text × List Node)} {tag name rest : Text}
  {r : Reader}

theorem run_cons (c : Char) (s : Text) (r : Reader) :
    run L (c :: s) r = (r.step L c).bind (run L s) := List.foldlM_cons

theorem run_inTag (seen : Text) (htag : '>' ∉ tag) :
    run L (tag ++ '>' :: rest) { mode := .tag seen, done, stack } =
      (Reader.endTag L { mode := .tag (seen ++ tag), done, stack } (seen ++ tag)).bind
        (run L rest) := by
  induction tag generalizing seen with
  | nil =>
    rw [List.nil_append, run_cons, List.append_nil, Reader.step]
    dsimp only
    rw [if_pos rfl]
  | cons c tag ih =>
    rw [List.mem_cons, not_or] at htag
    rw [List.cons_append, run_cons, Reader.step]
    dsimp only
    rw [if_neg (Ne.symm htag.1), Option.bind_some, ih (seen ++ [c]) htag.2, List.append_assoc]
    rfl

theorem run_tag (htag : '>' ∉ tag) :
    run L ('<' :: (tag ++ '>' :: rest)) { done, stack } =
      (Reader.endTag L { mode := .tag tag, done, stack } tag).bind (run L rest) := by
  rw [run_cons, Reader.step]
  dsimp only
  rw [if_pos rfl, Option.bind_some, run_inTag [] htag, List.nil_append]

theorem run_inReference (seen : Text) (hname : ';' ∉ name) :
    run L (name ++ ';' :: rest) { mode := .reference seen, done, stack } =
      ((L.reference (seen ++ name)).map fun d =>
        ({ done := done ++ [.char d], stack } : Reader)).bind (run L rest) := by
  induction name generalizing seen with
  | nil =>
    rw [List.nil_append, run_cons, List.append_nil, Reader.step]
    dsimp only
    rw [if_pos rfl]
  | cons c name ih =>
    rw [List.mem_cons, not_or] at hname
    rw [List.cons_append, run_cons, Reader.step]
    dsimp only
    rw [if_neg (Ne.symm hname.1), Option.bind_some, ih (seen ++ [c]) hname.2, List.append_assoc]
    rfl

theorem endTag_of_isTag (htag : IsTag tag) : r.endTag L tag =
    if L.isVoid (nameOf tag) then some { r with mode := .text, done := r.done ++ [.void tag] }
    else some { stack := (tag, r.done) :: r.stack } := by
  rw [Reader.endTag]
  · rintro name opened before stack rfl -
    exact htag.2 rfl
  · rintro name rfl -
    exact htag.2 rfl

theorem startTag_append (tag rest : Text) : startTag tag ++ rest = '<' :: (tag ++ '>' :: rest) := by
  simp [startTag]

theorem run_startTag (htag : IsTag tag) (hvoid : L.isVoid (nameOf tag) = false) :
    run L (startTag tag ++ rest) { done, stack } =
      run L rest { stack := (tag, done) :: stack } := by
  rw [startTag_append, run_tag htag.1, endTag_of_isTag htag, hvoid]
  rfl

theorem run_endTag {before : List Node} (htag : '>' ∉ tag) :
    run L (endTag (nameOf tag) ++ rest) { done, stack := (tag, before) :: stack } =
      run L rest { done := before ++ [.element tag done], stack } := by
  have hclosed : '>' ∉ '/' :: nameOf tag := by
    rw [List.mem_cons, not_or]
    exact ⟨by decide, fun h => htag (List.takeWhile_subset _ h)⟩
  have happend : endTag (nameOf tag) ++ rest = '<' :: ('/' :: nameOf tag ++ '>' :: rest) := by
    simp [endTag]
  have hstep : Reader.endTag L
      { mode := .tag ('/' :: nameOf tag), done, stack := (tag, before) :: stack }
      ('/' :: nameOf tag) = some { done := before ++ [.element tag done], stack } := if_pos rfl
  rw [happend, run_tag hclosed, hstep, Option.bind_some]

end Runs

namespace Represents

variable {L : Language} {s t tag name : Text} {ns ms : List Node}

theorem nil : Represents L [] [] := by
  intro rest done stack
  rw [List.nil_append, List.append_nil]

theorem append (hs : Represents L s ns) (ht : Represents L t ms) :
    Represents L (s ++ t) (ns ++ ms) := by
  intro rest done stack
  rw [List.append_assoc, hs, ht, List.append_assoc]

/-- Parts that each stand for their nodes, one behind the other. -/
theorem flatMap {α : Type*} {write : α → Text} {nodes : α → List Node} {as : List α}
    (h : ∀ a ∈ as, Represents L (write a) (nodes a)) :
    Represents L (as.flatMap write) (as.flatMap nodes) := by
  induction as with
  | nil => exact nil
  | cons a as ih =>
    obtain ⟨ha, has⟩ := List.forall_mem_cons.mp h
    exact ha.append (ih has)

theorem tagged (htag : IsTag tag) (hvoid : L.isVoid (nameOf tag) = false)
    (h : Represents L s ns) : Represents L (tagged tag s) [.element tag ns] := by
  intro rest done stack
  rw [Markup.tagged, List.append_assoc, List.append_assoc, run_startTag htag hvoid, h,
    run_endTag htag.1, List.nil_append]

theorem void (htag : IsTag tag) (hvoid : L.isVoid (nameOf tag) = true) :
    Represents L (startTag tag) [.void tag] := by
  intro rest done stack
  rw [startTag_append, run_tag htag.1, endTag_of_isTag htag, hvoid]
  rfl

theorem reference {c : Char} (hname : ';' ∉ name) (hc : L.reference name = some c) :
    Represents L (referenceTo name) [.char c] := by
  intro rest done stack
  have happend : referenceTo name ++ rest = '&' :: (name ++ ';' :: rest) := by simp [referenceTo]
  rw [happend, run_cons, Reader.step]
  dsimp only
  rw [if_neg (by decide), if_pos rfl, Option.bind_some, run_inReference [] hname, List.nil_append,
    hc]
  rfl

theorem char {c : Char} (hc : c ≠ '<' ∧ c ≠ '&') : Represents L [c] [.char c] := by
  intro rest done stack
  rw [List.singleton_append, run_cons, Reader.step]
  dsimp only
  rw [if_neg hc.1, if_neg hc.2, Option.bind_some]

/-- A text whose characters are written so that each is read as itself. -/
theorem escaped {escape : Char → Text} (h : ∀ c ∈ t, Represents L (escape c) [.char c]) :
    Represents L (t.flatMap escape) (text t) := by
  rw [text, List.map_eq_flatMap]
  exact flatMap h

theorem plain (h : ∀ c ∈ t, c ≠ '<' ∧ c ≠ '&') : Represents L t (text t) := by
  have hself := @escaped L t (fun c => [c]) fun c hc => char (h c hc)
  rwa [List.flatMap_singleton'] at hself

theorem texts (hs : Represents L s (text s)) (ht : Represents L t (text t)) :
    Represents L (s ++ t) (text (s ++ t)) := by
  rw [text, List.map_append]
  exact hs.append ht

theorem read (h : Represents L s ns) : read L s = some ns := by
  have hrun := h [] [] []
  rw [List.append_nil, List.nil_append] at hrun
  rw [Markup.read, hrun]
  rfl

end Represents

section Content

@[simp] theorem content_append (ns ms : List Node) :
    content (ns ++ ms) = content ns ++ content ms := by
  induction ns with
  | nil => rfl
  | cons n ns ih => rw [List.cons_append, content, content, ih, List.append_assoc]

@[simp] theorem content_text (t : Text) : content (text t) = t := by
  induction t with
  | nil => rfl
  | cons c t ih =>
    rw [text, List.map_cons, content, Node.content, List.singleton_append]
    exact congrArg (c :: ·) ih

@[simp] theorem elements_append (ns ms : List Node) :
    elements (ns ++ ms) = elements ns ++ elements ms := by
  induction ns with
  | nil => rfl
  | cons n ns ih => rw [List.cons_append, elements, elements, ih, List.append_assoc]

@[simp] theorem elements_text (t : Text) : elements (text t) = [] := by
  induction t with
  | nil => rfl
  | cons c t ih =>
    rw [text, List.map_cons, elements, Node.elements, List.nil_append]
    exact ih

/-- What is inside the elements of that name. -/
def inside (name : Text) (nodes : List Node) : List (List Node) :=
  ((elements nodes).filter fun e => nameOf e.1 = name).map Prod.snd

theorem inside_append (name : Text) (ns ms : List Node) :
    inside name (ns ++ ms) = inside name ns ++ inside name ms := by
  rw [inside, elements_append, List.filter_append, List.map_append, ← inside, ← inside]

theorem inside_text (name t : Text) : inside name (text t) = [] := by
  rw [inside, elements_text]
  rfl

theorem inside_element (name tag : Text) (ns : List Node) : inside name [.element tag ns] =
    if nameOf tag = name then ns :: inside name ns else inside name ns := by
  rw [inside, elements, elements, Node.elements, List.append_nil, List.filter_cons]
  split <;> simp_all [inside]

theorem inside_flatMap {α : Type*} (name : Text) (nodes : α → List Node) (as : List α) :
    inside name (as.flatMap nodes) = as.flatMap fun a => inside name (nodes a) := by
  induction as with
  | nil => rfl
  | cons a as ih => rw [List.flatMap_cons, inside_append, ih, List.flatMap_cons]

end Content

end Markup
