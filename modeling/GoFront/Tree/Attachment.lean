import GoFront.Token.Basic
import GoFront.Tree.Node
import GoFront.Tree.Span

/-!
The comment groups that are attached to the nodes of a tree: in front of a declaration, a spec or a
field, or behind a spec or a field on its last line.
-/

namespace GoFront

/-- A comment group attached to a node, with the place where the node begins or the place after it. -/
inductive Attachment where
  | doc (group : CommentGroup) (start : Pos)
  | comment (group : CommentGroup) (stop : Pos)
  deriving DecidableEq, Repr

namespace Attachment

/-- The group that is attached. -/
def group : Attachment → CommentGroup
  | .doc g _ => g
  | .comment g _ => g

/-- Whether a group stands where it belongs among the tokens of its text. In front of a node it ends on
the line before the token that the node begins with, and behind a node it begins after the token that the
node ends with, on the line on which this token ends. -/
def Placed (tokens : List Token) (lines : LineTable) : Attachment → Prop
  | .doc g start => ∃ t ∈ tokens, t.kind ≠ .comment ∧ t.pos = start ∧
    lines.line g.endPos + 1 = lines.line t.pos
  | .comment g stop => ∃ t ∈ tokens, t.kind ≠ .comment ∧ t.endPos = stop ∧
    t.endPos.raw ≤ g.pos.raw ∧ lines.line g.pos = lines.line t.endPos

/-- The group in front of a node, if there is one. -/
def docs (g : Option CommentGroup) (start : Pos) : List Attachment := (g.map (doc · start)).toList

/-- The group behind a node, if there is one. -/
def comments (g : Option CommentGroup) (stop : Pos) : List Attachment :=
  (g.map (comment · stop)).toList

@[simp] theorem docs_none (start : Pos) : docs none start = [] := rfl

@[simp] theorem comments_none (stop : Pos) : comments none stop = [] := rfl

@[simp] theorem map_group_docs (g : Option CommentGroup) (start : Pos) :
    (docs g start).map group = g.toList := by
  cases g <;> rfl

@[simp] theorem map_group_comments (g : Option CommentGroup) (stop : Pos) :
    (comments g stop).map group = g.toList := by
  cases g <;> rfl

end Attachment

variable {ι : Type}

section

variable [Named ι]

namespace Node

/-- The comment groups attached to a node itself. -/
def attachments : Node ι → List Attachment
  | .decl d => Attachment.docs d.doc d.pos
  | .spec _ s => Attachment.docs s.doc s.pos ++ Attachment.comments s.comment s.endPos
  | .field f => Attachment.docs f.doc f.pos ++ Attachment.comments f.comment f.endPos
  | _ => []

/-- The comment groups attached to some nodes. -/
def allAttachments (ns : List (Node ι)) : List Attachment := ns.flatMap attachments

@[simp] theorem allAttachments_nil : allAttachments ([] : List (Node ι)) = [] := rfl

@[simp] theorem allAttachments_cons (n : Node ι) (ns : List (Node ι)) :
    allAttachments (n :: ns) = n.attachments ++ allAttachments ns := rfl

@[simp] theorem allAttachments_append (ns ms : List (Node ι)) :
    allAttachments (ns ++ ms) = allAttachments ns ++ allAttachments ms := List.flatMap_append

@[simp] theorem attachments_expr (x : Expr ι) : (Node.expr x).attachments = [] := rfl

@[simp] theorem attachments_stmt (s : Stmt ι) : (Node.stmt s).attachments = [] := rfl

@[simp] theorem attachments_fieldList (l : FieldList ι) : (Node.fieldList l).attachments = [] := rfl

@[simp] theorem attachments_ident (i : ι) : (Node.ident i).attachments = [] := rfl

@[simp] theorem allAttachments_idents (is : List ι) : allAttachments (is.map .ident) = [] := by
  induction is with
  | nil => rfl
  | cons i is ih => simpa using ih

@[simp] theorem allAttachments_optionIdent (i : Option ι) :
    allAttachments (i.map Node.ident).toList = [] := by
  cases i <;> rfl

@[simp] theorem allAttachments_exprs (xs : List (Expr ι)) :
    allAttachments (Expr.listNodes xs) = xs.flatMap fun x => allAttachments x.nodes := by
  induction xs with
  | nil => rfl
  | cons x xs ih => simp [Expr.listNodes, ih]

@[simp] theorem allAttachments_fields (fs : List (Field ι)) :
    allAttachments (Field.listNodes fs) = fs.flatMap fun f => allAttachments f.nodes := by
  induction fs with
  | nil => rfl
  | cons f fs ih => simp [Field.listNodes, ih]

@[simp] theorem allAttachments_stmts (ss : List (Stmt ι)) :
    allAttachments (Stmt.listNodes ss) = ss.flatMap fun s => allAttachments s.nodes := by
  induction ss with
  | nil => rfl
  | cons s ss ih => simp [Stmt.listNodes, ih]

@[simp] theorem allAttachments_specs (tok : Token.Kind) (ss : List (Spec ι)) :
    allAttachments (Spec.listNodes tok ss) = ss.flatMap fun s => allAttachments (s.nodes tok) := by
  induction ss with
  | nil => rfl
  | cons s ss ih => simp [Spec.listNodes, ih]

@[simp] theorem allAttachments_decls (ds : List (Decl ι)) :
    allAttachments (Decl.listNodes ds) = ds.flatMap fun d => allAttachments d.nodes :=
  List.flatMap_assoc

@[simp] theorem allAttachments_comments (g : Option CommentGroup) :
    allAttachments (CommentGroup.nodes g : List (Node ι)) = [] := by
  cases g <;> rfl

end Node

/-- The comment groups attached to a file, in front of its package clause and in its declarations. The
specs that `imports` repeats are counted once. -/
def File.attachments (f : File ι) : List Attachment :=
  Attachment.docs f.doc f.package ++ Node.allAttachments (Decl.listNodes f.decls)

end

end GoFront
