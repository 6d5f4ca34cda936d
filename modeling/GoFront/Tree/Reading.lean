import GoFront.Tree.Serial

/-!
Reading trees from JSON: the inverse of `GoFront.Tree.Serial`. Each `ofJson?` answers with the node
or with nothing at all when the value is no tree of that kind. The readers of nodes count down how
deep they may look; `Json.size` always suffices, since a part is smaller than the whole.
-/

namespace GoFront

/-- Values that can be read from JSON. -/
class Deserial (α : Type) where
  ofJson? : Json → Option α

export Deserial (ofJson?)

/-! ### Leaves -/

/-- Positions fit into 32 bits. -/
instance : Deserial Pos := ⟨fun j => do
  let n ← j.nat?
  if n < 4294967296 then return ⟨n⟩ else none⟩

instance : Deserial LineTable := ⟨fun j => do
  let [starts] ← j.record? [.must "starts"] | none
  return ⟨(← starts.list? Json.nat?).toArray⟩⟩

instance : Deserial Token.Kind := ⟨fun j => do Token.Kind.ofName? (← j.unit?)⟩

instance : Deserial Comment := ⟨fun j => do
  let [slash, text] ← j.record? [.must "slash", .must "text"] | none
  return ⟨← ofJson? slash, ← text.string?⟩⟩

instance : Deserial CommentGroup := ⟨fun j => do
  let [list] ← j.record? [.must "list"] | none
  return ⟨← list.list? ofJson?⟩⟩

instance : Deserial ObjKind := ⟨fun j => do
  let name ← j.unit?
  [ObjKind.bad, .pkg, .con, .typ, .var, .fun, .lbl].find? fun k => k.serialName == name⟩

instance : Deserial LitKind := ⟨fun j => do
  let name ← j.unit?
  [LitKind.int, .float, .imag, .char, .string].find? fun k => k.serialName == name⟩

instance : Deserial ChanDir := ⟨fun j => do
  let name ← j.unit?
  [ChanDir.both, .send, .recv].find? fun d => d.serialName == name⟩

instance : Deserial Object := ⟨fun j => do
  let [kind, name, decl] ← j.record? [.must "kind", .must "name", .must "decl"] | none
  return ⟨← ofJson? kind, ← name.string?, ← ofJson? decl⟩⟩

instance : Deserial Ident := ⟨fun j => do
  let [namePos, name, obj] ← j.record? [.must "name_pos", .must "name", .may "obj"] | none
  return ⟨← ofJson? namePos, ← name.string?, ← obj.option? ofJson?⟩⟩

instance : Deserial BasicLit := ⟨fun j => do
  let [valuePos, kind, value] ← j.record? [.must "value_pos", .must "kind", .must "value"] | none
  return ⟨← ofJson? valuePos, ← ofJson? kind, ← value.string?⟩⟩

variable {ι : Type} [Deserial ι]

instance : Deserial (ImportSpec ι) := ⟨fun j => do
  let [doc, name, path, comment] ←
    j.record? [.may "doc", .may "name", .must "path", .may "comment"] | none
  return ⟨← doc.option? ofJson?, ← name.option? ofJson?, ← ofJson? path,
    ← comment.option? ofJson?⟩⟩

/-! ### Nodes -/

mutual

/-- Reads an expression. -/
def Expr.ofJson? : Nat → Json → Option (Expr ι)
  | 0, _ => none
  | n + 1, j => do
    let (name, content) ← j.variant?
    match name with
    | "Bad" =>
      let [start, stop] ← content.record? [.must "from", .must "to"] | none
      return .bad (← Deserial.ofJson? start) (← Deserial.ofJson? stop)
    | "Ident" => return .ident (← Deserial.ofJson? content)
    | "Ellipsis" =>
      let [ellipsis, elt] ← content.record? [.must "ellipsis", .may "elt"] | none
      return .ellipsis (← Deserial.ofJson? ellipsis) (← elt.option? (Expr.ofJson? n))
    | "BasicLit" => return .basicLit (← Deserial.ofJson? content)
    | "FuncLit" =>
      let [ty, body] ← content.record? [.must "ty", .must "body"] | none
      return .funcLit (← FuncType.ofJson? n ty) (← Block.ofJson? n body)
    | "CompositeLit" =>
      let [ty, lbrace, elts, rbrace, incomplete] ← content.record?
        [.may "ty", .must "lbrace", .must "elts", .must "rbrace", .must "incomplete"] | none
      return .compositeLit (← ty.option? (Expr.ofJson? n)) (← Deserial.ofJson? lbrace)
        (← elts.list? (Expr.ofJson? n)) (← Deserial.ofJson? rbrace) (← incomplete.bool?)
    | "Paren" =>
      let [lparen, x, rparen] ← content.record? [.must "lparen", .must "x", .must "rparen"]
        | none
      return .paren (← Deserial.ofJson? lparen) (← Expr.ofJson? n x) (← Deserial.ofJson? rparen)
    | "Selector" =>
      let [x, sel] ← content.record? [.must "x", .must "sel"] | none
      return .selector (← Expr.ofJson? n x) (← Deserial.ofJson? sel)
    | "Index" =>
      let [x, lbrack, index, rbrack] ← content.record?
        [.must "x", .must "lbrack", .must "index", .must "rbrack"] | none
      return .index (← Expr.ofJson? n x) (← Deserial.ofJson? lbrack) (← Expr.ofJson? n index)
        (← Deserial.ofJson? rbrack)
    | "Slice" =>
      let [x, lbrack, low, high, max, slice3, rbrack] ← content.record?
        [.must "x", .must "lbrack", .may "low", .may "high", .may "max", .must "slice3",
          .must "rbrack"] | none
      return .slice (← Expr.ofJson? n x) (← Deserial.ofJson? lbrack)
        (← low.option? (Expr.ofJson? n)) (← high.option? (Expr.ofJson? n))
        (← max.option? (Expr.ofJson? n)) (← slice3.bool?) (← Deserial.ofJson? rbrack)
    | "TypeAssert" =>
      let [x, lparen, ty, rparen] ← content.record?
        [.must "x", .must "lparen", .may "ty", .must "rparen"] | none
      return .typeAssert (← Expr.ofJson? n x) (← Deserial.ofJson? lparen)
        (← ty.option? (Expr.ofJson? n)) (← Deserial.ofJson? rparen)
    | "Call" => return .call (← Call.ofJson? n content)
    | "Star" =>
      let [star, x] ← content.record? [.must "star", .must "x"] | none
      return .star (← Deserial.ofJson? star) (← Expr.ofJson? n x)
    | "Unary" =>
      let [opPos, op, x] ← content.record? [.must "op_pos", .must "op", .must "x"] | none
      return .unary (← Deserial.ofJson? opPos) (← Deserial.ofJson? op) (← Expr.ofJson? n x)
    | "Binary" =>
      let [x, opPos, op, y] ← content.record?
        [.must "x", .must "op_pos", .must "op", .must "y"] | none
      return .binary (← Expr.ofJson? n x) (← Deserial.ofJson? opPos) (← Deserial.ofJson? op)
        (← Expr.ofJson? n y)
    | "KeyValue" =>
      let [key, colon, value] ← content.record? [.must "key", .must "colon", .must "value"]
        | none
      return .keyValue (← Expr.ofJson? n key) (← Deserial.ofJson? colon) (← Expr.ofJson? n value)
    | "ArrayType" =>
      let [lbrack, len, elt] ← content.record? [.must "lbrack", .may "len", .must "elt"] | none
      return .arrayType (← Deserial.ofJson? lbrack) (← len.option? (Expr.ofJson? n))
        (← Expr.ofJson? n elt)
    | "StructType" =>
      let [structPos, fields, incomplete] ← content.record?
        [.must "struct_pos", .must "fields", .must "incomplete"] | none
      return .structType (← Deserial.ofJson? structPos) (← FieldList.ofJson? n fields)
        (← incomplete.bool?)
    | "FuncType" => return .funcType (← FuncType.ofJson? n content)
    | "InterfaceType" =>
      let [interface, methods, incomplete] ← content.record?
        [.must "interface", .must "methods", .must "incomplete"] | none
      return .interfaceType (← Deserial.ofJson? interface) (← FieldList.ofJson? n methods)
        (← incomplete.bool?)
    | "MapType" =>
      let [map, key, value] ← content.record? [.must "map", .must "key", .must "value"] | none
      return .mapType (← Deserial.ofJson? map) (← Expr.ofJson? n key) (← Expr.ofJson? n value)
    | "ChanType" =>
      let [start, arrow, dir, value] ← content.record?
        [.must "begin", .must "arrow", .must "dir", .must "value"] | none
      return .chanType (← Deserial.ofJson? start) (← Deserial.ofJson? arrow)
        (← Deserial.ofJson? dir) (← Expr.ofJson? n value)
    | _ => none

/-- Reads a call. -/
def Call.ofJson? : Nat → Json → Option (Call ι)
  | 0, _ => none
  | n + 1, j => do
    let [fn, lparen, args, ellipsis, rparen] ← j.record?
      [.must "fun", .must "lparen", .must "args", .must "ellipsis", .must "rparen"] | none
    return ⟨← Expr.ofJson? n fn, ← Deserial.ofJson? lparen, ← args.list? (Expr.ofJson? n),
      ← Deserial.ofJson? ellipsis, ← Deserial.ofJson? rparen⟩

/-- Reads a function type. -/
def FuncType.ofJson? : Nat → Json → Option (FuncType ι)
  | 0, _ => none
  | n + 1, j => do
    let [func, params, results] ← j.record? [.must "func", .must "params", .may "results"] | none
    return ⟨← Deserial.ofJson? func, ← FieldList.ofJson? n params,
      ← results.option? (FieldList.ofJson? n)⟩

/-- Reads a field list. -/
def FieldList.ofJson? : Nat → Json → Option (FieldList ι)
  | 0, _ => none
  | n + 1, j => do
    let [opening, list, closing] ← j.record? [.must "opening", .must "list", .must "closing"]
      | none
    return ⟨← Deserial.ofJson? opening, ← list.list? (Field.ofJson? n),
      ← Deserial.ofJson? closing⟩

/-- Reads a field. -/
def Field.ofJson? : Nat → Json → Option (Field ι)
  | 0, _ => none
  | n + 1, j => do
    let [doc, names, ty, tag, comment] ← j.record?
      [.may "doc", .must "names", .must "ty", .may "tag", .may "comment"] | none
    return ⟨← doc.option? Deserial.ofJson?, ← names.list? Deserial.ofJson?, ← Expr.ofJson? n ty,
      ← tag.option? Deserial.ofJson?, ← comment.option? Deserial.ofJson?⟩

/-- Reads a block. -/
def Block.ofJson? : Nat → Json → Option (Block ι)
  | 0, _ => none
  | n + 1, j => do
    let [lbrace, list, rbrace] ← j.record? [.must "lbrace", .must "list", .must "rbrace"] | none
    return ⟨← Deserial.ofJson? lbrace, ← list.list? (Stmt.ofJson? n), ← Deserial.ofJson? rbrace⟩

/-- Reads a statement. -/
def Stmt.ofJson? : Nat → Json → Option (Stmt ι)
  | 0, _ => none
  | n + 1, j => do
    let (name, content) ← j.variant?
    match name with
    | "Bad" =>
      let [start, stop] ← content.record? [.must "from", .must "to"] | none
      return .bad (← Deserial.ofJson? start) (← Deserial.ofJson? stop)
    | "Decl" =>
      let [decl] ← content.record? [.must "decl"] | none
      return .decl (← Decl.ofJson? n decl)
    | "Empty" =>
      let [semicolon, implicit] ← content.record? [.must "semicolon", .must "implicit"] | none
      return .empty (← Deserial.ofJson? semicolon) (← implicit.bool?)
    | "Labeled" =>
      let [label, colon, stmt] ← content.record? [.must "label", .must "colon", .must "stmt"]
        | none
      return .labeled (← Deserial.ofJson? label) (← Deserial.ofJson? colon) (← Stmt.ofJson? n stmt)
    | "Expr" =>
      let [x] ← content.record? [.must "x"] | none
      return .expr (← Expr.ofJson? n x)
    | "Send" =>
      let [chan, arrow, value] ← content.record? [.must "chan", .must "arrow", .must "value"]
        | none
      return .send (← Expr.ofJson? n chan) (← Deserial.ofJson? arrow) (← Expr.ofJson? n value)
    | "IncDec" =>
      let [x, tokPos, tok] ← content.record? [.must "x", .must "tok_pos", .must "tok"] | none
      return .incDec (← Expr.ofJson? n x) (← Deserial.ofJson? tokPos) (← Deserial.ofJson? tok)
    | "Assign" =>
      let [lhs, tokPos, tok, rhs] ← content.record?
        [.must "lhs", .must "tok_pos", .must "tok", .must "rhs"] | none
      return .assign (← lhs.list? (Expr.ofJson? n)) (← Deserial.ofJson? tokPos)
        (← Deserial.ofJson? tok) (← rhs.list? (Expr.ofJson? n))
    | "Go" =>
      let [goPos, call] ← content.record? [.must "go", .must "call"] | none
      return .go (← Deserial.ofJson? goPos) (← Call.ofJson? n call)
    | "Defer" =>
      let [deferPos, call] ← content.record? [.must "defer", .must "call"] | none
      return .defer (← Deserial.ofJson? deferPos) (← Call.ofJson? n call)
    | "Return" =>
      let [retPos, results] ← content.record? [.must "ret", .must "results"] | none
      return .ret (← Deserial.ofJson? retPos) (← results.list? (Expr.ofJson? n))
    | "Branch" =>
      let [tokPos, tok, label] ← content.record? [.must "tok_pos", .must "tok", .may "label"]
        | none
      return .branch (← Deserial.ofJson? tokPos) (← Deserial.ofJson? tok)
        (← label.option? Deserial.ofJson?)
    | "Block" => return .block (← Block.ofJson? n content)
    | "If" =>
      let [ifPos, init, cond, body, elseBranch] ← content.record?
        [.must "if_pos", .may "init", .must "cond", .must "body", .may "else_branch"] | none
      return .ifElse (← Deserial.ofJson? ifPos) (← init.option? (Stmt.ofJson? n))
        (← Expr.ofJson? n cond) (← Block.ofJson? n body)
        (← elseBranch.option? (Stmt.ofJson? n))
    | "CaseClause" =>
      let [casePos, list, colon, body] ← content.record?
        [.must "case", .must "list", .must "colon", .must "body"] | none
      return .caseClause (← Deserial.ofJson? casePos) (← list.list? (Expr.ofJson? n))
        (← Deserial.ofJson? colon) (← body.list? (Stmt.ofJson? n))
    | "Switch" =>
      let [switchPos, init, tag, body] ← content.record?
        [.must "switch", .may "init", .may "tag", .must "body"] | none
      return .switch (← Deserial.ofJson? switchPos) (← init.option? (Stmt.ofJson? n))
        (← tag.option? (Expr.ofJson? n)) (← Block.ofJson? n body)
    | "TypeSwitch" =>
      let [switchPos, init, assign, body] ← content.record?
        [.must "switch", .may "init", .must "assign", .must "body"] | none
      return .typeSwitch (← Deserial.ofJson? switchPos) (← init.option? (Stmt.ofJson? n))
        (← Stmt.ofJson? n assign) (← Block.ofJson? n body)
    | "CommClause" =>
      let [casePos, comm, colon, body] ← content.record?
        [.must "case", .may "comm", .must "colon", .must "body"] | none
      return .commClause (← Deserial.ofJson? casePos) (← comm.option? (Stmt.ofJson? n))
        (← Deserial.ofJson? colon) (← body.list? (Stmt.ofJson? n))
    | "Select" =>
      let [selectPos, body] ← content.record? [.must "select", .must "body"] | none
      return .select (← Deserial.ofJson? selectPos) (← Block.ofJson? n body)
    | "For" =>
      let [forPos, init, cond, post, body] ← content.record?
        [.must "for_pos", .may "init", .may "cond", .may "post", .must "body"] | none
      return .loop (← Deserial.ofJson? forPos) (← init.option? (Stmt.ofJson? n))
        (← cond.option? (Expr.ofJson? n)) (← post.option? (Stmt.ofJson? n))
        (← Block.ofJson? n body)
    | "Range" =>
      let [forPos, key, value, tokPos, tok, x, body] ← content.record?
        [.must "for_pos", .may "key", .may "value", .must "tok_pos", .must "tok", .must "x",
          .must "body"] | none
      return .range (← Deserial.ofJson? forPos) (← key.option? (Expr.ofJson? n))
        (← value.option? (Expr.ofJson? n)) (← Deserial.ofJson? tokPos) (← Deserial.ofJson? tok)
        (← Expr.ofJson? n x) (← Block.ofJson? n body)
    | _ => none

/-- Reads a spec. -/
def Spec.ofJson? : Nat → Json → Option (Spec ι)
  | 0, _ => none
  | n + 1, j => do
    let (name, content) ← j.variant?
    match name with
    | "Import" => return .importSpec (← Deserial.ofJson? content)
    | "Value" =>
      let [doc, names, ty, values, comment] ← content.record?
        [.may "doc", .must "names", .may "ty", .must "values", .may "comment"] | none
      return .valueSpec (← doc.option? Deserial.ofJson?) (← names.list? Deserial.ofJson?)
        (← ty.option? (Expr.ofJson? n)) (← values.list? (Expr.ofJson? n))
        (← comment.option? Deserial.ofJson?)
    | "Type" =>
      let [doc, name, assign, ty, comment] ← content.record?
        [.may "doc", .must "name", .must "assign", .must "ty", .may "comment"] | none
      return .typeSpec (← doc.option? Deserial.ofJson?) (← Deserial.ofJson? name)
        (← Deserial.ofJson? assign) (← Expr.ofJson? n ty) (← comment.option? Deserial.ofJson?)
    | _ => none

/-- Reads a declaration group. -/
def Group.ofJson? : Nat → Json → Option (Group ι)
  | 0, _ => none
  | n + 1, j => do
    let [doc, tokPos, tok, lparen, specs, rparen] ← j.record?
      [.may "doc", .must "tok_pos", .must "tok", .must "lparen", .must "specs", .must "rparen"]
      | none
    return ⟨← doc.option? Deserial.ofJson?, ← Deserial.ofJson? tokPos, ← Deserial.ofJson? tok,
      ← Deserial.ofJson? lparen, ← specs.list? (Spec.ofJson? n), ← Deserial.ofJson? rparen⟩

/-- Reads a declaration. -/
def Decl.ofJson? : Nat → Json → Option (Decl ι)
  | 0, _ => none
  | n + 1, j => do
    let (name, content) ← j.variant?
    match name with
    | "Bad" =>
      let [start, stop] ← content.record? [.must "from", .must "to"] | none
      return .bad (← Deserial.ofJson? start) (← Deserial.ofJson? stop)
    | "Gen" => return .group (← Group.ofJson? n content)
    | "Func" =>
      let [doc, recv, name, ty, body] ← content.record?
        [.may "doc", .may "recv", .must "name", .must "ty", .may "body"] | none
      return .func (← doc.option? Deserial.ofJson?) (← recv.option? (FieldList.ofJson? n))
        (← Deserial.ofJson? name) (← FuncType.ofJson? n ty) (← body.option? (Block.ofJson? n))
    | _ => none

end

instance : Deserial (Expr ι) := ⟨fun j => Expr.ofJson? j.size j⟩

instance : Deserial (Call ι) := ⟨fun j => Call.ofJson? j.size j⟩

instance : Deserial (FuncType ι) := ⟨fun j => FuncType.ofJson? j.size j⟩

instance : Deserial (FieldList ι) := ⟨fun j => FieldList.ofJson? j.size j⟩

instance : Deserial (Field ι) := ⟨fun j => Field.ofJson? j.size j⟩

instance : Deserial (Block ι) := ⟨fun j => Block.ofJson? j.size j⟩

instance : Deserial (Stmt ι) := ⟨fun j => Stmt.ofJson? j.size j⟩

instance : Deserial (Spec ι) := ⟨fun j => Spec.ofJson? j.size j⟩

instance : Deserial (Group ι) := ⟨fun j => Group.ofJson? j.size j⟩

instance : Deserial (Decl ι) := ⟨fun j => Decl.ofJson? j.size j⟩

instance : Deserial (File ι) := ⟨fun j => do
  let [doc, package, name, decls, imports, unresolved, comments, lines] ← j.record?
    [.may "doc", .must "package", .must "name", .must "decls", .must "imports",
      .must "unresolved", .must "comments", .must "lines"] | none
  return ⟨← doc.option? ofJson?, ← ofJson? package, ← ofJson? name, ← decls.list? ofJson?,
    ← imports.list? ofJson?, ← unresolved.list? ofJson?, ← comments.list? ofJson?,
    ← ofJson? lines⟩⟩

end GoFront
