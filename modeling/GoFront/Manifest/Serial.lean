import GoFront.Manifest.Directives
import GoFront.Tree.Reading

/-!
Manifests and their documents as JSON. A document can be read back; unlike a text it may be any
tree of lines, whatever its tokens.
-/

namespace GoFront.Manifest

/-! ### Writing -/

instance : Serial Place := ⟨fun p =>
  .obj [("line", .nat p.line), ("column", .nat p.column), ("byte", .nat p.byte)]⟩

instance : Serial Comment := ⟨fun c => .obj [("start", toJson c.start), ("token", .str c.text)]⟩

instance : Serial Comments := ⟨fun cs =>
  .obj [("before", .list toJson cs.before), ("suffix", .list toJson cs.suffix)]⟩

instance : Serial Line := ⟨fun l =>
  .obj [("start", toJson l.start), ("token", .list .str l.tokens), ("comments", toJson l.comments),
    ("in_block", .bool l.inBlock)]⟩

instance : Serial Block := ⟨fun b =>
  .obj [("start", toJson b.start), ("token", .list .str b.tokens), ("comments", toJson b.comments),
    ("line", .list toJson b.lines), ("rparen", .list toJson b.closing)]⟩

instance : Serial Statement := ⟨fun
  | .comments start list =>
    .variant "Comment" (.obj [("start", toJson start), ("comments", .list toJson list)])
  | .line l => .variant "Line" (toJson l)
  | .block b => .variant "Block" (toJson b)⟩

instance : Serial Document := ⟨fun d =>
  .obj [("name", .str d.name), ("stmts", .list toJson d.statements)]⟩

instance : Serial ModuleVersion := ⟨fun v =>
  .obj [("path", .str v.path), ("version", .str v.version)]⟩

instance : Serial Requirement := ⟨fun r =>
  .obj [("module", toJson r.module), ("indirect", .bool r.indirect)]⟩

instance : Serial Replacement := ⟨fun r => .obj [("old", toJson r.old), ("new", toJson r.new)]⟩

instance : Serial Retraction := ⟨fun r =>
  .obj [("low", .str r.low), ("high", .str r.high), ("rationale", .str r.rationale)]⟩

instance : Serial Manifest := ⟨fun m =>
  .obj [("module", .option (fun path => .obj [("path", .str path)]) m.module),
    ("go", .option (fun version => .obj [("version", .str version)]) m.go),
    ("require", .list toJson m.requirements), ("replace", .list toJson m.replacements),
    ("exclude", .list (fun v => .obj [("module", toJson v)]) m.exclusions),
    ("retract", .list toJson m.retractions), ("syntax", toJson m.document)]⟩

/-! ### Reading -/

instance : Deserial Place := ⟨fun j => do
  let [line, column, byte] ← j.record? [.must "line", .must "column", .must "byte"] | none
  return ⟨← line.nat?, ← column.nat?, ← byte.nat?⟩⟩

instance : Deserial Comment := ⟨fun j => do
  let [start, text] ← j.record? [.must "start", .must "token"] | none
  return ⟨← ofJson? start, ← text.string?⟩⟩

instance : Deserial Comments := ⟨fun j => do
  let [before, suffix] ← j.record? [.must "before", .must "suffix"] | none
  return ⟨← before.list? ofJson?, ← suffix.list? ofJson?⟩⟩

instance : Deserial Line := ⟨fun j => do
  let [start, tokens, comments, inBlock] ←
    j.record? [.must "start", .must "token", .must "comments", .must "in_block"] | none
  return ⟨← ofJson? start, ← tokens.list? Json.string?, ← ofJson? comments, ← inBlock.bool?⟩⟩

instance : Deserial Block := ⟨fun j => do
  let [start, tokens, comments, lines, closing] ← j.record?
    [.must "start", .must "token", .must "comments", .must "line", .must "rparen"] | none
  return ⟨← ofJson? start, ← tokens.list? Json.string?, ← ofJson? comments, ← lines.list? ofJson?,
    ← closing.list? ofJson?⟩⟩

instance : Deserial Statement := ⟨fun j => do
  match ← j.variant? with
  | ("Comment", c) =>
    let [start, list] ← c.record? [.must "start", .must "comments"] | none
    return .comments (← ofJson? start) (← list.list? ofJson?)
  | ("Line", l) => return .line (← ofJson? l)
  | ("Block", b) => return .block (← ofJson? b)
  | _ => none⟩

instance : Deserial Document := ⟨fun j => do
  let [name, statements] ← j.record? [.must "name", .must "stmts"] | none
  return ⟨← name.string?, ← statements.list? ofJson?⟩⟩

end GoFront.Manifest
