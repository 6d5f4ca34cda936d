import GoFront.Json
import GoFront.Tree.Plus

/-!
Trees as JSON. A structure is a record of all its fields, an optional part is null or its value, and
a choice names its variant: `{"Binary": {"x": …, "op_pos": …, "op": …, "y": …}}`. Where a node holds
a structure and not a choice, as a function literal holds its type, the record stands without a
variant name. `GoFront.Tree.Reading` reads this form back.
-/

namespace GoFront

/-- Values that have a JSON form. -/
class Serial (α : Type) where
  toJson : α → Json

export Serial (toJson)

/-! ### Leaves -/

instance : Serial Pos := ⟨fun p => .nat p.raw⟩

instance : Serial LineTable := ⟨fun t => .obj [("starts", .list .nat t.starts.toList)]⟩

instance : Serial Token.Kind := ⟨fun k => .str k.name⟩

instance : Serial Comment := ⟨fun c => .obj [("slash", toJson c.slash), ("text", .str c.text)]⟩

instance : Serial CommentGroup := ⟨fun g => .obj [("list", .list toJson g.list)]⟩

/-- The name of an object's sort in serialized trees. -/
def ObjKind.serialName : ObjKind → String
  | .bad => "Bad"
  | .pkg => "Pkg"
  | .con => "Con"
  | .typ => "Typ"
  | .var => "Var"
  | .fun => "Fun"
  | .lbl => "Lbl"

instance : Serial ObjKind := ⟨fun k => .str k.serialName⟩

/-- The name of a literal class in serialized trees. -/
def LitKind.serialName : LitKind → String
  | .int => "Int"
  | .float => "Float"
  | .imag => "Imag"
  | .char => "Char"
  | .string => "String"

instance : Serial LitKind := ⟨fun k => .str k.serialName⟩

/-- The name of a channel direction in serialized trees. -/
def ChanDir.serialName : ChanDir → String
  | .both => "Both"
  | .send => "Send"
  | .recv => "Recv"

instance : Serial ChanDir := ⟨fun d => .str d.serialName⟩

instance : Serial Object := ⟨fun o =>
  .obj [("kind", toJson o.kind), ("name", .str o.name), ("decl", toJson o.decl)]⟩

instance : Serial Ident := ⟨fun i =>
  .obj [("name_pos", toJson i.namePos), ("name", .str i.name), ("obj", .option toJson i.obj)]⟩

/-- A Go+ identifier shows its object without the payload, and the Go identifier it was made from
beside it. -/
instance : Serial Plus.Ident := ⟨fun i =>
  .obj [("name_pos", toJson i.namePos), ("name", .str i.name),
    ("obj", .option (fun o =>
      .obj [("kind", toJson o.kind), ("name", .str o.name), ("decl", toJson o.decl)]) i.obj),
    ("base", .option toJson i.source?)]⟩

instance : Serial BasicLit := ⟨fun l =>
  .obj [("value_pos", toJson l.valuePos), ("kind", toJson l.kind), ("value", .str l.value)]⟩

variable {ι : Type} [Serial ι]

instance : Serial (ImportSpec ι) := ⟨fun s =>
  .obj [("doc", .option toJson s.doc), ("name", .option toJson s.name), ("path", toJson s.path),
    ("comment", .option toJson s.comment)]⟩

/-! ### Nodes -/

mutual

/-- The JSON form of an expression. -/
def Expr.toJson : Expr ι → Json
  | .bad start stop =>
    .variant "Bad" (.obj [("from", Serial.toJson start), ("to", Serial.toJson stop)])
  | .ident i => .variant "Ident" (Serial.toJson i)
  | .ellipsis e elt =>
    .variant "Ellipsis" (.obj [("ellipsis", Serial.toJson e), ("elt", Expr.optionToJson elt)])
  | .basicLit l => .variant "BasicLit" (Serial.toJson l)
  | .funcLit ty body => .variant "FuncLit" (.obj [("ty", ty.toJson), ("body", body.toJson)])
  | .compositeLit ty lbrace elts rbrace incomplete =>
    .variant "CompositeLit" (.obj [("ty", Expr.optionToJson ty), ("lbrace", Serial.toJson lbrace),
      ("elts", .arr (Expr.listToJson elts)), ("rbrace", Serial.toJson rbrace),
      ("incomplete", .bool incomplete)])
  | .paren lparen x rparen =>
    .variant "Paren" (.obj [("lparen", Serial.toJson lparen), ("x", x.toJson),
      ("rparen", Serial.toJson rparen)])
  | .selector x sel => .variant "Selector" (.obj [("x", x.toJson), ("sel", Serial.toJson sel)])
  | .index x lbrack index rbrack =>
    .variant "Index" (.obj [("x", x.toJson), ("lbrack", Serial.toJson lbrack),
      ("index", index.toJson), ("rbrack", Serial.toJson rbrack)])
  | .slice x lbrack low high max slice3 rbrack =>
    .variant "Slice" (.obj [("x", x.toJson), ("lbrack", Serial.toJson lbrack),
      ("low", Expr.optionToJson low), ("high", Expr.optionToJson high),
      ("max", Expr.optionToJson max), ("slice3", .bool slice3), ("rbrack", Serial.toJson rbrack)])
  | .typeAssert x lparen ty rparen =>
    .variant "TypeAssert" (.obj [("x", x.toJson), ("lparen", Serial.toJson lparen),
      ("ty", Expr.optionToJson ty), ("rparen", Serial.toJson rparen)])
  | .call c => .variant "Call" c.toJson
  | .star star x => .variant "Star" (.obj [("star", Serial.toJson star), ("x", x.toJson)])
  | .unary opPos op x =>
    .variant "Unary" (.obj [("op_pos", Serial.toJson opPos), ("op", Serial.toJson op),
      ("x", x.toJson)])
  | .binary x opPos op y =>
    .variant "Binary" (.obj [("x", x.toJson), ("op_pos", Serial.toJson opPos),
      ("op", Serial.toJson op), ("y", y.toJson)])
  | .keyValue key colon value =>
    .variant "KeyValue" (.obj [("key", key.toJson), ("colon", Serial.toJson colon),
      ("value", value.toJson)])
  | .arrayType lbrack len elt =>
    .variant "ArrayType" (.obj [("lbrack", Serial.toJson lbrack), ("len", Expr.optionToJson len),
      ("elt", elt.toJson)])
  | .structType structPos fields incomplete =>
    .variant "StructType" (.obj [("struct_pos", Serial.toJson structPos),
      ("fields", fields.toJson), ("incomplete", .bool incomplete)])
  | .funcType ty => .variant "FuncType" ty.toJson
  | .interfaceType interface methods incomplete =>
    .variant "InterfaceType" (.obj [("interface", Serial.toJson interface),
      ("methods", methods.toJson), ("incomplete", .bool incomplete)])
  | .mapType map key value =>
    .variant "MapType" (.obj [("map", Serial.toJson map), ("key", key.toJson),
      ("value", value.toJson)])
  | .chanType start arrow dir value =>
    .variant "ChanType" (.obj [("begin", Serial.toJson start), ("arrow", Serial.toJson arrow),
      ("dir", Serial.toJson dir), ("value", value.toJson)])

/-- The JSON form of an optional expression. -/
def Expr.optionToJson : Option (Expr ι) → Json
  | none => .null
  | some x => x.toJson

/-- The JSON forms of some expressions. -/
def Expr.listToJson : List (Expr ι) → List Json
  | [] => []
  | x :: xs => x.toJson :: Expr.listToJson xs

/-- The JSON form of a call. -/
def Call.toJson : Call ι → Json
  | ⟨fn, lparen, args, ellipsis, rparen⟩ =>
    .obj [("fun", fn.toJson), ("lparen", Serial.toJson lparen),
      ("args", .arr (Expr.listToJson args)), ("ellipsis", Serial.toJson ellipsis),
      ("rparen", Serial.toJson rparen)]

/-- The JSON form of a function type. -/
def FuncType.toJson : FuncType ι → Json
  | ⟨func, params, results⟩ =>
    .obj [("func", Serial.toJson func), ("params", params.toJson),
      ("results", FieldList.optionToJson results)]

/-- The JSON form of a field list. -/
def FieldList.toJson : FieldList ι → Json
  | ⟨opening, list, closing⟩ =>
    .obj [("opening", Serial.toJson opening), ("list", .arr (Field.listToJson list)),
      ("closing", Serial.toJson closing)]

/-- The JSON form of an optional field list. -/
def FieldList.optionToJson : Option (FieldList ι) → Json
  | none => .null
  | some l => l.toJson

/-- The JSON form of a field. -/
def Field.toJson : Field ι → Json
  | ⟨doc, names, ty, tag, comment⟩ =>
    .obj [("doc", .option Serial.toJson doc), ("names", .list Serial.toJson names),
      ("ty", ty.toJson), ("tag", .option Serial.toJson tag),
      ("comment", .option Serial.toJson comment)]

/-- The JSON forms of some fields. -/
def Field.listToJson : List (Field ι) → List Json
  | [] => []
  | f :: fs => f.toJson :: Field.listToJson fs

/-- The JSON form of a block. -/
def Block.toJson : Block ι → Json
  | ⟨lbrace, list, rbrace⟩ =>
    .obj [("lbrace", Serial.toJson lbrace), ("list", .arr (Stmt.listToJson list)),
      ("rbrace", Serial.toJson rbrace)]

/-- The JSON form of an optional block. -/
def Block.optionToJson : Option (Block ι) → Json
  | none => .null
  | some b => b.toJson

/-- The JSON form of a statement. -/
def Stmt.toJson : Stmt ι → Json
  | .bad start stop =>
    .variant "Bad" (.obj [("from", Serial.toJson start), ("to", Serial.toJson stop)])
  | .decl d => .variant "Decl" (.obj [("decl", d.toJson)])
  | .empty semicolon implicit =>
    .variant "Empty" (.obj [("semicolon", Serial.toJson semicolon), ("implicit", .bool implicit)])
  | .labeled label colon stmt =>
    .variant "Labeled" (.obj [("label", Serial.toJson label), ("colon", Serial.toJson colon),
      ("stmt", stmt.toJson)])
  | .expr x => .variant "Expr" (.obj [("x", x.toJson)])
  | .send chan arrow value =>
    .variant "Send" (.obj [("chan", chan.toJson), ("arrow", Serial.toJson arrow),
      ("value", value.toJson)])
  | .incDec x tokPos tok =>
    .variant "IncDec" (.obj [("x", x.toJson), ("tok_pos", Serial.toJson tokPos),
      ("tok", Serial.toJson tok)])
  | .assign lhs tokPos tok rhs =>
    .variant "Assign" (.obj [("lhs", .arr (Expr.listToJson lhs)),
      ("tok_pos", Serial.toJson tokPos), ("tok", Serial.toJson tok),
      ("rhs", .arr (Expr.listToJson rhs))])
  | .go goPos call => .variant "Go" (.obj [("go", Serial.toJson goPos), ("call", call.toJson)])
  | .defer deferPos call =>
    .variant "Defer" (.obj [("defer", Serial.toJson deferPos), ("call", call.toJson)])
  | .ret retPos results =>
    .variant "Return" (.obj [("ret", Serial.toJson retPos),
      ("results", .arr (Expr.listToJson results))])
  | .branch tokPos tok label =>
    .variant "Branch" (.obj [("tok_pos", Serial.toJson tokPos), ("tok", Serial.toJson tok),
      ("label", .option Serial.toJson label)])
  | .block b => .variant "Block" b.toJson
  | .ifElse ifPos init cond body elseBranch =>
    .variant "If" (.obj [("if_pos", Serial.toJson ifPos), ("init", Stmt.optionToJson init),
      ("cond", cond.toJson), ("body", body.toJson),
      ("else_branch", Stmt.optionToJson elseBranch)])
  | .caseClause casePos list colon body =>
    .variant "CaseClause" (.obj [("case", Serial.toJson casePos),
      ("list", .arr (Expr.listToJson list)), ("colon", Serial.toJson colon),
      ("body", .arr (Stmt.listToJson body))])
  | .switch switchPos init tag body =>
    .variant "Switch" (.obj [("switch", Serial.toJson switchPos),
      ("init", Stmt.optionToJson init), ("tag", Expr.optionToJson tag), ("body", body.toJson)])
  | .typeSwitch switchPos init assign body =>
    .variant "TypeSwitch" (.obj [("switch", Serial.toJson switchPos),
      ("init", Stmt.optionToJson init), ("assign", assign.toJson), ("body", body.toJson)])
  | .commClause casePos comm colon body =>
    .variant "CommClause" (.obj [("case", Serial.toJson casePos),
      ("comm", Stmt.optionToJson comm), ("colon", Serial.toJson colon),
      ("body", .arr (Stmt.listToJson body))])
  | .select selectPos body =>
    .variant "Select" (.obj [("select", Serial.toJson selectPos), ("body", body.toJson)])
  | .loop forPos init cond post body =>
    .variant "For" (.obj [("for_pos", Serial.toJson forPos), ("init", Stmt.optionToJson init),
      ("cond", Expr.optionToJson cond), ("post", Stmt.optionToJson post), ("body", body.toJson)])
  | .range forPos key value tokPos tok x body =>
    .variant "Range" (.obj [("for_pos", Serial.toJson forPos), ("key", Expr.optionToJson key),
      ("value", Expr.optionToJson value), ("tok_pos", Serial.toJson tokPos),
      ("tok", Serial.toJson tok), ("x", x.toJson), ("body", body.toJson)])

/-- The JSON form of an optional statement. -/
def Stmt.optionToJson : Option (Stmt ι) → Json
  | none => .null
  | some s => s.toJson

/-- The JSON forms of some statements. -/
def Stmt.listToJson : List (Stmt ι) → List Json
  | [] => []
  | s :: ss => s.toJson :: Stmt.listToJson ss

/-- The JSON form of a spec. -/
def Spec.toJson : Spec ι → Json
  | .importSpec s => .variant "Import" (Serial.toJson s)
  | .valueSpec doc names ty values comment =>
    .variant "Value" (.obj [("doc", .option Serial.toJson doc),
      ("names", .list Serial.toJson names), ("ty", Expr.optionToJson ty),
      ("values", .arr (Expr.listToJson values)), ("comment", .option Serial.toJson comment)])
  | .typeSpec doc name assign ty comment =>
    .variant "Type" (.obj [("doc", .option Serial.toJson doc), ("name", Serial.toJson name),
      ("assign", Serial.toJson assign), ("ty", ty.toJson),
      ("comment", .option Serial.toJson comment)])

/-- The JSON forms of some specs. -/
def Spec.listToJson : List (Spec ι) → List Json
  | [] => []
  | s :: ss => s.toJson :: Spec.listToJson ss

/-- The JSON form of a declaration group. -/
def Group.toJson : Group ι → Json
  | ⟨doc, tokPos, tok, lparen, specs, rparen⟩ =>
    .obj [("doc", .option Serial.toJson doc), ("tok_pos", Serial.toJson tokPos),
      ("tok", Serial.toJson tok), ("lparen", Serial.toJson lparen),
      ("specs", .arr (Spec.listToJson specs)), ("rparen", Serial.toJson rparen)]

/-- The JSON form of a declaration. -/
def Decl.toJson : Decl ι → Json
  | .bad start stop =>
    .variant "Bad" (.obj [("from", Serial.toJson start), ("to", Serial.toJson stop)])
  | .group g => .variant "Gen" g.toJson
  | .func doc recv name ty body =>
    .variant "Func" (.obj [("doc", .option Serial.toJson doc),
      ("recv", FieldList.optionToJson recv), ("name", Serial.toJson name), ("ty", ty.toJson),
      ("body", Block.optionToJson body)])

end

instance : Serial (Expr ι) := ⟨Expr.toJson⟩

instance : Serial (Call ι) := ⟨Call.toJson⟩

instance : Serial (FuncType ι) := ⟨FuncType.toJson⟩

instance : Serial (FieldList ι) := ⟨FieldList.toJson⟩

instance : Serial (Field ι) := ⟨Field.toJson⟩

instance : Serial (Block ι) := ⟨Block.toJson⟩

instance : Serial (Stmt ι) := ⟨Stmt.toJson⟩

instance : Serial (Spec ι) := ⟨Spec.toJson⟩

instance : Serial (Group ι) := ⟨Group.toJson⟩

instance : Serial (Decl ι) := ⟨Decl.toJson⟩

/-! ### Files -/

/-- The fields of a file. -/
def File.members (f : File ι) : List (String × Json) :=
  [("doc", .option toJson f.doc), ("package", toJson f.package), ("name", toJson f.name),
    ("decls", .list toJson f.decls), ("imports", .list toJson f.imports),
    ("unresolved", .list toJson f.unresolved), ("comments", .list toJson f.comments),
    ("lines", toJson f.lines)]

instance : Serial (File ι) := ⟨fun f => .obj f.members⟩

instance : Serial Plus.File := ⟨fun f =>
  .obj (f.toFile.members ++ [("no_pkg_decl", .bool f.noPkgDecl)])⟩

end GoFront
