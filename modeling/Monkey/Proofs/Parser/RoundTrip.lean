import Monkey.Proofs.Node.Alike
import Monkey.Proofs.Parser.Completeness
import Monkey.Proofs.Parser.Printing

/-!
# Parsing what was printed

The printed form of a parsed program is a normal form of it: it parses without mistakes to
an alike program, which is printed the same.
-/

namespace Monkey

open Grammar

/-- The words of printed statements derive the statements. -/
theorem printed_derives {ss : List Node} (h : ∀ s ∈ ss, Fits .statement s) :
    Derives (.statements (Node.stripAll ss)) (wordsOf (scan (Node.textStatements ss))) [] := by
  obtain ⟨ws, hshows, hderives⟩ := shown_statements fun s hs => shown_of_fits (h s hs)
  have hwords : wordsOf (scan (Node.textStatements ss)) = ws := by
    have hnil := hshows [] nofun
    rwa [List.append_nil, Scanner.wordsIn_nil, List.append_nil] at hnil
  have hall := hderives [] (.inl rfl)
  rwa [List.append_nil, ← hwords] at hall

/-- Whatever is parsed, with mistakes or without, is printed as a text that parses without
    mistakes to an alike program, and that program is printed the same. -/
theorem parse_text_eq {source : String} {p : Parse} (hparse : parse source = .ok p) :
    ∃ q, parse p.program.text = .ok q ∧ q.errors = [] ∧ q.program.alike p.program = true ∧
      q.program.text = p.program.text := by
  have hderives := printed_derives (Parser.parse_fits hparse)
  obtain ⟨q, hq, herrors, hstrip⟩ : ∃ q, parse p.program.text = .ok q ∧ q.errors = [] ∧
      Node.stripAll q.statements = Node.stripAll p.statements :=
    Parser.run_of_derives (eofLast_scan p.program.text) hderives
  have hprograms : q.program.strip = p.program.strip := by
    unfold Parse.program
    rw [Node.strip, Node.strip, hstrip]
  refine ⟨q, hq, herrors, (Node.alike_iff _ _).mpr hprograms, ?_⟩
  calc q.program.text = q.program.strip.text := (Node.text_strip _).symm
    _ = p.program.strip.text := by rw [hprograms]
    _ = p.program.text := Node.text_strip _

theorem parse_text_eq_partial :
    ∃ p, parse "let 1; if (a) \x7b -b; c" = .ok p ∧
      p.errors ≠ [] ∧ p.statements ≠ [] ∧
      ∃ q, parse p.program.text = .ok q ∧ q.errors = [] ∧
        q.program.alike p.program = true ∧ q.program.text = p.program.text := by
  obtain ⟨p, hparse, herrors, hstatements⟩ : ∃ p,
      parse "let 1; if (a) \x7b -b; c" = .ok p ∧
        p.errors ≠ [] ∧ p.statements ≠ [] := ⟨_, rfl, nofun, nofun⟩
  exact ⟨p, hparse, herrors, hstatements, parse_text_eq hparse⟩

end Monkey
