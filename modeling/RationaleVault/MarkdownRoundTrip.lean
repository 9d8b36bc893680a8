import RationaleVault.Knowledge.Markdown
import RationaleVault.Memory.Markdown

/-!
# What the Markdown stores keep

Both stores give back what was written into them as long as no text of a record
ends its comment early or opens a comment of its own in the summary. A title
with a closing brace before `-->` is enough to lose a record.
-/

namespace RationaleVault

/-- A lesson without evidence, with a title. -/
def titledLesson (title : String) : KnowledgeObject where
  id := "k1"
  version := 1
  title := title
  content := "Text."
  knowledgeType := .lesson
  knowledgeDomain := .process
  confidence := ⟨0, 0, 0, .zero⟩
  importance := "low"
  provenance := ⟨"k1", [], [], "", ⟨0, 0, 0, .zero⟩, 0, "2026-01-01T00:00:00"⟩
  createdAt := "2026-01-01T00:00:00"
  updatedAt := "2026-01-01T00:00:00"

/-- A note with a title. -/
def titledNote (title : String) : MemoryRecord where
  id := "m1"
  version := 1
  title := title
  content := "Text."
  memoryType := .implementationNote
  importance := "low"
  lifecycleStatus := "active"
  sourceEventIds := []
  sourceType := "note"
  createdAt := "2026-01-01T00:00:00"

end RationaleVault
