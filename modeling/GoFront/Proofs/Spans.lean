import GoFront.Proofs.Binding
import GoFront.Proofs.Derive.Files
import GoFront.Proofs.Derive.Map
import GoFront.Proofs.Derive.Spans
import GoFront.Scope.File

/-!
The spans of a parsed tree are well nested (`parseFile_spans`).

The tokens of a text lie in its order (`tokenize_laid`), every node of an accepted file is derived from
some of them (`parseFile_node`), and so has their span.
-/

namespace GoFront

open Token Token.Lexer Text

/-! ### The tokens of a text -/

/-- The tokens of a text lie in its order, and none goes beyond its end. -/
theorem tokenize_laid {source : String} {tokens : List Token} {lines : LineTable}
    (accepted : tokenize source = .ok (tokens, lines)) : Laid (source.utf8ByteSize + 1) tokens := by
  obtain ⟨body, rfl, -, tiles⟩ := (tokenize_lexed accepted).tiles
  rw [Nat.zero_add, ← utf8ByteSize_eq]
  have mark : lexemes [endMark source.utf8ByteSize] = [endMark source.utf8ByteSize] := rfl
  have split : lexemes (body ++ [endMark source.utf8ByteSize]) =
      lexemes body ++ [endMark source.utf8ByteSize] := by
    rw [← mark, lexemes, List.filter_append]
    rfl
  -- a lexeme is spelled by a part of the characters
  have placed : ∀ t ∈ lexemes body, t.pos.isValid ∧ t.endPos.raw ≤ source.utf8ByteSize + 1 := by
    intro t member
    obtain ⟨before, after, chars, place⟩ := tiles.spelled t member
    have size : source.utf8ByteSize = byteLength before + t.text.utf8ByteSize + byteLength after := by
      rw [utf8ByteSize_eq, chars, byteLength_append, byteLength_append, ← utf8ByteSize_eq]
    rw [Token.endPos, place, Pos.advance_ofOffset]
    constructor
    · rfl
    · simp only [Pos.ofOffset]
      omega
  constructor
  · exact Nat.succ_pos _
  · intro t member
    rw [split] at member
    rcases List.mem_append.mp member with lexeme | last
    · exact placed t lexeme
    · obtain rfl := List.mem_singleton.mp last
      exact ⟨rfl, Nat.le_refl _⟩
  · rw [split]
    apply List.pairwise_append.mpr
    refine ⟨tiles.ordered.imp fun both => both.2, List.pairwise_singleton _ _, ?_⟩
    intro t member u last
    obtain rfl := List.mem_singleton.mp last
    exact (placed t member).2

/-! ### The nodes of a file -/

theorem keepsNames_unbind : KeepsNames Ident.unbind := fun _ => ⟨rfl, rfl⟩

/-- **The tokens of an accepted text are those of its file.** -/
theorem parseFile_items {source : String} {f : File Ident} (parsed : parseFile source = .ok f) :
    ∃ tokens lines e, tokenize source = .ok (tokens, lines) ∧ e.kind = .eof ∧
      Derives f.items (words tokens) [e] := by
  obtain ⟨before, unresolved, rfl⟩ := parseFile_eq_ok.mp parsed
  obtain ⟨tokens, lines, e, split, isEof, derives⟩ := parseUnresolved_derives unresolved
  refine ⟨tokens, lines, e, split, isEof, ?_⟩
  -- binding keeps names and places
  have same : ((Item.terminated (before.resolve.decls.map .decl)).map (Item.map Ident.unbind)) =
      (Item.terminated (before.decls.map .decl)).map (Item.map Ident.unbind) := by
    have decl : Node.map Ident.unbind ∘ Node.decl = Node.decl ∘ Decl.map Ident.unbind := rfl
    rw [Item.map_terminated, Item.map_terminated, List.map_map, List.map_map, decl,
      ← List.map_map, ← List.map_map, File.unbind_resolve]
  have items : before.resolve.items.map (Item.map Ident.unbind) =
      before.items.map (Item.map Ident.unbind) := by
    rw [File.items, File.items, List.map_cons, List.map_cons, List.map_cons, same]
    rfl
  apply Derives.of_map keepsNames_unbind
  rw [items]
  exact derives.map keepsNames_unbind

/-- **The tokens of a node.** Every node of the declarations of an accepted file is derived from a row of the
tokens of its text, in front of the end mark. -/
theorem parseFile_node {source : String} {f : File Ident} (parsed : parseFile source = .ok f) :
    ∃ tokens lines e, tokenize source = .ok (tokens, lines) ∧ e.kind = .eof ∧
      ∀ d ∈ f.decls, ∀ n : Node Ident, n.Within (.decl d) →
        ∃ before own rest, words tokens = before ++ (own ++ rest) ∧ [e] <:+ rest ∧
          Derives [.part n] (own ++ rest) rest := by
  obtain ⟨tokens, lines, e, split, isEof, derives⟩ := parseFile_items parsed
  refine ⟨tokens, lines, e, split, isEof, ?_⟩
  intro d isDecl n within
  have part : .decl d ∈ Item.parts f.items := by
    simpa [File.items] using isDecl
  obtain ⟨us, us', first, behind, whole⟩ := derives.part_between part
  obtain ⟨vs, rest, second, last, found⟩ := Derives.within_between within whole
  obtain ⟨own, rfl⟩ := found.suffix
  obtain ⟨before, text⟩ := second.trans first
  exact ⟨before, own, rest, text.symm, behind.trans last, found⟩

/-- Spans of a parsed tree are well nested. Every node of the declarations is derived from tokens of its
own, which follow each other in the text, comments apart. It begins with the first of them and ends
with the last; a node that ends with a statement for which no token stands ends in front of the closing
brace that comes next. Its place and its end lie in the text, its parts lie inside it in the order of
the source and without overlap, and in a text short enough the places after its tokens fit into 32
bits. -/
theorem parseFile_spans {source : String} {f : File Ident}
    (short : source.utf8ByteSize < UInt32.size - 1) (parsed : parseFile source = .ok f) :
    ∃ tokens lines, tokenize source = .ok (tokens, lines) ∧
      ∀ d ∈ f.decls, ∀ n : Node Ident, n.Within (.decl d) →
        ∃ before own rest production, words tokens = before ++ own ++ rest ∧
          production ∈ n.productions ∧ Derives production (own ++ rest) rest ∧
          n.Spans (source.utf8ByteSize + 1) own rest ∧ n.endPos.raw < UInt32.size ∧
          ∀ kind pos text, .word kind pos text ∈ production →
            pos.raw + text.utf8ByteSize < UInt32.size := by
  obtain ⟨tokens, lines, e, split, -, nodes⟩ := parseFile_node parsed
  refine ⟨tokens, lines, split, ?_⟩
  intro d isDecl n within
  obtain ⟨before, own, rest, text, -, found⟩ := nodes d isDecl n within
  have laid : Laid (source.utf8ByteSize + 1) (own ++ rest) := by
    have inWords : (own ++ rest).Sublist (words tokens) := text ▸ List.sublist_append_right _ _
    exact (tokenize_laid split).sublist (inWords.trans List.filter_sublist)
  rcases found with _ | _ | _ | _ | _ | _ | _ | ⟨chosen, inside, ⟨⟩⟩
  have spans := Derives.spans chosen inside laid
  refine ⟨before, own, rest, _, ?_, chosen, inside, spans, ?_, ?_⟩
  · rw [text, List.append_assoc]
  · have := spans.bounds
    omega
  · intro kind pos text member
    have := inside.word_end laid member
    omega

/-- The source of a method with a receiving channel, and with a label in front of the closing brace. -/
def labelAtEnd : String := "package p\n\nfunc (t *T) f(c <-chan int) \x7b done: \x7d\n"

/-- The method ends with its brace. -/
theorem parseFile_spans_labelAtEnd : ∃ f, parseFile labelAtEnd = .ok f ∧ f.decls.length = 1 ∧
    ∀ d ∈ f.decls, ∃ own rest, (Node.decl d).Spans 50 own rest := by
  have accepted : ((parseFile labelAtEnd).toOption.map fun f => f.decls.length) = some 1 := by
    decide +kernel
  have size : labelAtEnd.utf8ByteSize = 49 := by decide +kernel
  have short : labelAtEnd.utf8ByteSize < UInt32.size - 1 := by decide +kernel
  cases parsed : parseFile labelAtEnd with
  | error e =>
      rw [parsed] at accepted
      cases accepted
  | ok f =>
      rw [parsed] at accepted
      refine ⟨f, rfl, Option.some.inj accepted, ?_⟩
      intro d isDecl
      obtain ⟨tokens, lines, -, nodes⟩ := parseFile_spans short parsed
      obtain ⟨before, own, rest, production, -, -, -, spans, -⟩ := nodes d isDecl (.decl d) (.refl _)
      rw [size] at spans
      exact ⟨own, rest, spans⟩

end GoFront
