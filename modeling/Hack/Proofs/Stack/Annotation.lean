import Hack.Proofs.Assembly.Preprocessing
import Hack.Proofs.Stack.Acceptance
import Hack.Proofs.Stack.Counting

namespace Hack.Stack

open Hack.Assembly Hack.Text

variable {commands : List Command}

theorem cleanedLines_extend {draft other : Draft} {command : Command} (clear : command.Clear)
    (ended : EndsLine draft.text.toList) (otherEnded : EndsLine other.text.toList)
    (emission : draft.emission = other.emission)
    (cleaned : cleanedLines draft.text.toList = cleanedLines other.text.toList) (config otherConfig : Config) :
    (draft.extend config command).emission = (other.extend otherConfig command).emission ∧
      cleanedLines (draft.extend config command).text.toList =
        cleanedLines (other.extend otherConfig command).text.toList := by
  cases read : command.operation with
  | error error =>
      rw [extend_of_error read, extend_of_error read]
      exact ⟨emission, cleaned⟩
  | ok operation =>
      have pieces : ∀ (start : Draft) (annotate : Bool) (code : String), EndsLine start.text.toList →
          cleanedLines (start.text ++ (comment annotate command ++ code)).toList =
            cleanedLines start.text.toList ++ cleanedLines code.toList := by
        intro start annotate code ended
        rw [String.toList_append, cleanedLines_append ended, String.toList_append,
          cleanedLines_append (endsLine_comment annotate command), cleanedLines_comment annotate clear, List.nil_append]
      rw [extend_of_operation read, extend_of_operation read, emission]
      refine ⟨rfl, ?_⟩
      rw [pieces _ _ _ ended, pieces _ _ _ otherEnded, cleaned]

theorem cleanedLines_draft_eq {config other : Config} (same : config.bootstrap = other.bootstrap)
    (clear : ∀ command ∈ commands, command.Clear) :
    (draft config commands).emission = (draft other commands).emission ∧
      cleanedLines (draft config commands).text.toList = cleanedLines (draft other commands).text.toList := by
  induction commands using List.reverseRecOn with
  | nil => simp [draft_nil, openingCode, same]
  | append_singleton front command ih =>
      obtain ⟨clears, last⟩ := List.forall_mem_append.mp clear
      obtain ⟨emission, cleaned⟩ := ih clears
      rw [draft_concat, draft_concat]
      exact cleanedLines_extend (last command List.mem_cons_self) (endsLine_draft _ _) (endsLine_draft _ _)
        emission cleaned _ _

/-- Whether and how a translation fails is not up to annotation, and what it
yields is assembled alike. -/
theorem translate_alike (files : List SourceFile) {config other : Config} (same : config.bootstrap = other.bootstrap) :
    (∃ error, translate files config = .error error ∧ translate files other = .error error) ∨
      ∃ text otherText, translate files config = .ok text ∧ translate files other = .ok otherText ∧
        AssembledAlike text otherText := by
  rcases accepted_or_refused files with accepted | ⟨error, refused⟩
  · obtain ⟨text, translated⟩ := exists_translate config accepted
    obtain ⟨otherText, translatedOther⟩ := exists_translate other accepted
    refine .inr ⟨text, otherText, translated, translatedOther, assembledAlike_of_cleanedLines ?_⟩
    obtain ⟨commands, read, rfl, _⟩ := draft_of_translate translated
    obtain ⟨others, readOther, rfl, _⟩ := draft_of_translate translatedOther
    obtain rfl : commands = others := Except.ok.inj (read.symm.trans readOther)
    exact (cleanedLines_draft_eq same fun command member => (clear_of_readFiles read command member).2).2
  · exact .inl ⟨error, translate_of_refused refused, translate_of_refused refused⟩

end Hack.Stack
