import Octet.Proofs.Draft.Renaming
import Octet.Proofs.Program.Safety

/-!
# Names and texts do not matter

What a program is compiled to does not depend on how its variables are called and its texts are
worded, but for the texts in the image themselves.  It only matters which names are the same and
which texts are, so a renaming has to be injective: the number of different names and of different
texts decides whether they fit into the tables.

Programs that are refused are treated alike as well.  The fault may speak of another variable, but
it is of the same kind and at the same place.
-/

namespace Octet

open Draft

/-- **Names and texts do not matter.**  If variables get other names and texts another wording, and
different ones remain different, then the code is the same byte for byte, with the texts replaced;
and a program is refused if and only if the renamed one is, for a fault of the same kind at the same
place. -/
theorem generate_renamed {f g : String → String} (hf : Function.Injective f)
    (hg : Function.Injective g) (p : Program) (d : Draft) :
    (∀ code constants, ((generate p).perform d).1 = .ok ⟨code, constants⟩ →
      ((generate (p.renamed ⟨f, g, id⟩)).perform d).1 = .ok ⟨code, constants.map g⟩) ∧
    ∀ kind site,
      (∃ e, ((generate p).perform d).1 = .error e ∧ e.fault.kind? = kind ∧ e.site = site) ↔
      ∃ e, ((generate (p.renamed ⟨f, g, id⟩)).perform d).1 = .error e ∧ e.fault.kind? = kind ∧
        e.site = site := by
  have hrenamed := congrArg Prod.fst (perform_generate_renamed (ρ := ⟨f, g, id⟩) ⟨hf, hg⟩ p d)
  rw [hrenamed]
  generalize ((generate p).perform d).1 = result
  cases result with
  | ok image =>
    refine ⟨fun code constants h => ?_, fun kind site => ⟨?_, ?_⟩⟩
    · cases h
      rfl
    · rintro ⟨e, h, -⟩
      cases h
    · rintro ⟨e, h, -⟩
      cases h
  | error e =>
    refine ⟨nofun, fun kind site => ⟨?_, ?_⟩⟩
    · rintro ⟨_, ⟨⟩, hkind, hsite⟩
      exact ⟨_, rfl, (kind?_renamed _ _).trans hkind, (moved_of_place_id rfl _).trans hsite⟩
    · rintro ⟨_, ⟨⟩, hkind, hsite⟩
      exact ⟨e, rfl, (kind?_renamed _ _).symm.trans hkind,
        (moved_of_place_id rfl _).symm.trans hsite⟩

/-- A name with an underscore behind it. -/
def underscored (name : String) : String := name ++ "_"

/-- A text with an arrow in front of it. -/
def arrowed (text : String) : String := "> " ++ text

/-- The variable of the countdown and its last word are replaced.  Without a binding of the variable
the loop is refused at the condition, under either name. -/
theorem generate_renamed_countdown :
    ((generate (countdown.renamed ⟨underscored, arrowed, id⟩)).perform {}).1 =
        .ok ⟨countdownImage.code, ["> done"]⟩ ∧
      ∃ e, ((generate (Program.renamed ⟨underscored, arrowed, id⟩
          ⟨countdown.items.tail⟩)).perform {}).1 = .error e ∧
        e.fault.kind? = some .undefined ∧ e.site = .ofPos .start := by
  have hname : Function.Injective underscored := fun a b h => by
    simpa [underscored] using h
  have htext : Function.Injective arrowed := fun a b h => by
    simpa [arrowed] using h
  have hcountdown : ((generate countdown).perform {}).1 = .ok countdownImage :=
    congrArg Prod.fst (perform_generate compile_countdown)
  have hunbound : ((generate ⟨countdown.items.tail⟩).perform {}).1 =
      .error ⟨.undefinedVariable "i", .ofPos .start⟩ := by
    rfl
  exact ⟨(generate_renamed hname htext countdown {}).1 _ _ hcountdown,
    ((generate_renamed hname htext ⟨countdown.items.tail⟩ {}).2 _ _).1 ⟨_, hunbound, rfl, rfl⟩⟩

end Octet
