import SvgWorkbench.Drawing
import SvgWorkbench.Text.Blank

/-!
# Saved documents

Documents are saved under a name and numbered from one on. Content is checked before it is saved, so
nothing malformed is ever stored. Every change takes the time it is made at; the list shows the
latest change first.
-/

namespace SvgWorkbench

/-- A saved document. -/
structure Saved where
  /-- The number. -/
  id : Nat
  /-- The name, without blanks at its ends. -/
  name : String
  /-- The markup. -/
  content : String
  /-- When it was last changed. -/
  updated : Nat
  deriving DecidableEq, Repr

/-- Why a document cannot be saved or found. -/
inductive StoreError where
  /-- No document has the number. -/
  | notFound (id : Nat)
  /-- The name is blank. -/
  | emptyName
  /-- The content is malformed. -/
  | invalidContent (refusal : Gate.Refusal)
  deriving DecidableEq, Repr

/-- The wording of an error. -/
def StoreError.message : StoreError → String
  | .notFound id => String.join ["Document not found: ", toString id]
  | .emptyName => "Document name must not be empty"
  | .invalidContent refusal => refusal.syntaxMessage

/-- The saved documents and the number of the next one. -/
structure Store where
  /-- The documents in the order they were created. -/
  documents : List Saved := []
  /-- The number of the next document. -/
  next : Nat := 1
  deriving DecidableEq, Repr

namespace Store

/-- The number of documents. -/
def size (s : Store) : Nat := s.documents.length

/-- The document of a number. -/
def get (s : Store) (id : Nat) : Except StoreError Saved :=
  match s.documents.find? (·.id == id) with
  | some doc => .ok doc
  | none => .error (.notFound id)

/-- Whether a document stands before another in the list: it was changed later or, at the same time,
has the larger number. -/
def listedBefore (a b : Saved) : Bool :=
  b.updated < a.updated || (a.updated == b.updated && b.id ≤ a.id)

/-- The documents, the one changed last in front. -/
def list (s : Store) : List Saved := s.documents.mergeSort listedBefore

/-- Saves a new document. -/
def create (s : Store) (now : Nat) (name content : String) : Except StoreError (Saved × Store) :=
  if (Text.trim name).isEmpty then .error .emptyName
  else match Gate.check content with
    | .error refusal => .error (.invalidContent refusal)
    | .ok _ =>
      let doc : Saved := ⟨s.next, Text.trim name, content, now⟩
      .ok (doc, ⟨s.documents ++ [doc], s.next + 1⟩)

/-- Replaces the content of a document. -/
def update (s : Store) (now id : Nat) (content : String) : Except StoreError (Saved × Store) :=
  match Gate.check content with
  | .error refusal => .error (.invalidContent refusal)
  | .ok _ =>
    match s.get id with
    | .error e => .error e
    | .ok doc =>
      let doc := { doc with content, updated := now }
      .ok (doc, { s with documents := s.documents.map fun d ↦ if d.id = id then doc else d })

end Store

end SvgWorkbench
