import FieldPost.Proofs.History
import Mathlib.Logic.Relation

/-!
Histories taken apart into single moves. Whatever runs, openings and histories do to the table of
instances they do by calls of the instance store, one after the other, so a fact that each call
keeps is a fact about all of them. A download is trusted to reach the instances by such calls only.
-/

namespace FieldPost

variable {σ : Type}

namespace Device

/-- One call of the instance store, or a change that leaves the table of instances alone. -/
inductive Move : Device → Device → Prop
  | insert (device : Device) (filled : Instance) : Move device (device.insertInstance filled).2
  | update (device : Device) (id : Int) (status : Status) :
      Move device (device.updateStatus id status).2
  | delete (device : Device) (id : Int) : Move device (device.deleteInstance id).2
  | elsewhere {before after : Device}
      (same : after.database.instances = before.database.instances) : Move before after

abbrev Reaches (before after : Device) : Prop := Relation.ReflTransGen Move before after

theorem reaches_of_same {before after : Device}
    (same : after.database.instances = before.database.instances) : before.Reaches after :=
  .single (.elsewhere same)

end Device

/-! ### Runs -/

namespace Run

variable (settings : Settings) (uploaders : Uploaders σ) (route : Route)

theorem reaches_turn (world : World σ) (filled : Instance) :
    world.device.Reaches (sendOne settings uploaders route world filled).2.device := by
  rcases turn_device settings uploaders route world filled with same | ⟨status, written⟩ | gone
  · rw [same]
  · rw [written]
    exact .single (.update _ _ _)
  · rw [gone]
    exact .tail (.single (.update _ _ _)) (.delete _ _)

theorem reaches_world_after (world : World σ) (candidates : List Instance) :
    world.device.Reaches (worldAfter settings uploaders route world candidates).device := by
  induction candidates generalizing world with
  | nil => exact .refl
  | cons filled rest induction =>
      rw [world_after_cons]
      exact (reaches_turn settings uploaders route world filled).trans (induction _)

theorem reaches_execute (around : Surroundings) (world : World σ) :
    world.device.Reaches (execute around uploaders world).2.device := by
  have execution := execution_of_run around uploaders world
  generalize execute around uploaders world = ended at execution ⊢
  rcases ended with ⟨outcome, after⟩
  cases execution with
  | idle _ notices unfinished => exact .refl
  | sent candidates selected summary results =>
      exact reaches_world_after around.settings uploaders (.ofSettings around.settings)
        (begun around world) candidates

end Run

/-! ### Openings -/

/-- What a download does to the instances it does by calls of the store. -/
structure FormServices.CallsStores (services : FormServices σ) : Prop where
  download : ∀ formId (device : Device) far,
    device.Reaches (services.download formId device far).device
  downloadRequired : ∀ (device : Device) far,
    device.Reaches (services.downloadRequired device far).device

namespace Opening

theorem reaches_discard (world : World σ) (found : List Instance) :
    world.device.Reaches (discard world found).2.device := by
  induction found generalizing world with
  | nil => exact .refl
  | cons draft rest induction =>
      have deleted : world.device.Reaches
          (world.onDevice fun device => device.deleteInstance draft.id).2.device :=
        .single (.delete _ _)
      unfold discard
      dsimp only
      split
      · exact deleted
      · exact deleted.trans (induction _)

theorem reaches_discard_drafts (formId : String) (world : World σ) :
    world.device.Reaches (discardDrafts formId world).2.device := by
  unfold discardDrafts
  split
  · exact .refl
  · exact reaches_discard world _

section

variable {services : FormServices σ} (calls : services.CallsStores)

include calls

theorem reaches_obtain (formId : String) (world : World σ) :
    world.device.Reaches (obtain services formId world).2.device := by
  unfold obtain
  split
  · exact .refl
  · exact .refl
  · exact calls.download formId world.device world.far
  · have dropped : world.device.Reaches
        (world.onDevice fun device => device.deleteForms formId).2.device :=
      Device.reaches_of_same (Device.delete_forms_instances world.device formId).1
    unfold repair
    dsimp only
    split
    · exact dropped
    · exact dropped.trans (calls.download formId _ world.far)

theorem reaches_open_form (formId : String) (world : World σ) :
    world.device.Reaches (openForm services formId world).2.device := by
  have discarded := reaches_discard_drafts formId world
  unfold openForm
  dsimp only
  split
  · exact discarded
  · apply (discarded.trans (reaches_obtain calls formId _)).trans
    unfold showBlank
    split <;> exact .refl

theorem reaches_open_saved_form (formId : String) (world : World σ) :
    world.device.Reaches (openSavedForm services formId world).2.device := by
  unfold openSavedForm
  split
  · exact .refl
  · split
    · exact .refl
    · exact reaches_open_form calls formId world

end

end Opening

/-! ### Histories -/

/-- What happens around a device: whatever a history holds, and that the forms which are required
are fetched before any of them is opened. -/
inductive Deed (σ : Type)
  | act (act : Act σ)
  | prepare (services : FormServices σ)

namespace Deed

def perform (world : World σ) : Deed σ → World σ
  | .act held => held.perform world
  | .prepare services => (Opening.prepare services world).2

def CallsStores : Deed σ → Prop
  | .act (.openForm services _) => services.CallsStores
  | .act (.openSavedForm services _) => services.CallsStores
  | .act _ => True
  | .prepare services => services.CallsStores

theorem reaches_perform {deed : Deed σ} (calls : deed.CallsStores) (world : World σ) :
    world.device.Reaches (deed.perform world).device := by
  cases deed with
  | prepare services => exact calls.downloadRequired world.device world.far
  | act held =>
      cases held with
      | insert filled => exact .single (.insert _ _)
      | update id status => exact .single (.update _ _ _)
      | delete id => exact .single (.delete _ _)
      | run around uploaders => exact Run.reaches_execute uploaders around world
      | openForm services formId => exact Opening.reaches_open_form calls formId world
      | openSavedForm services formId => exact Opening.reaches_open_saved_form calls formId world
      | elsewhere files forms clock far => exact Device.reaches_of_same rfl

def play (world : World σ) (deeds : List (Deed σ)) : World σ := deeds.foldl perform world

theorem reaches_play {deeds : List (Deed σ)} (calls : ∀ deed ∈ deeds, deed.CallsStores)
    (world : World σ) : world.device.Reaches (play world deeds).device := by
  induction deeds generalizing world with
  | nil => exact .refl
  | cons deed rest induction =>
      apply (reaches_perform (calls deed List.mem_cons_self) world).trans
      apply induction
      intro other member
      exact calls other (List.mem_cons_of_mem _ member)

end Deed

namespace Rehearsal

theorem services_call_stores : services.CallsStores where
  download formId device far :=
    Device.reaches_of_same (fetch_instances far.deliveries formId device).1
  downloadRequired device far :=
    Device.reaches_of_same (fetch_instances far.deliveries required device).1

end Rehearsal

end FieldPost
