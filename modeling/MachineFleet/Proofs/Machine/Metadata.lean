import MachineFleet.Machine.Metadata
import MachineFleet.Proofs.Data.Document
import MachineFleet.Proofs.Net.Address
import MachineFleet.Server.Api

namespace MachineFleet.Metadata

variable {m : Metadata}

theorem readsAs_address (a : IpAddress) : (Json.text a.render).ReadsAs Document.address? a :=
  Json.readsAs_of_not_record nofun (IpAddress.parse?_render a)

theorem readsAs_toJson (m : Metadata) (form : RecordForm) :
    m.toJson.ReadsAs (ofDocument? form) m := by
  intro w hw
  rw [← Json.without_nothing m.toJson] at hw
  obtain ⟨fs, hfs, given⟩ := Json.exists_given form ["id", "address"] hw (by simp)
  have hid := given.require_eq "id" (.text m.id) (by simp) (by decide) rfl (Json.readsAs_text _)
  have haddress := given.require_eq "address" (.text m.address.render) (by simp) (by decide) rfl
    (readsAs_address _)
  rw [ofDocument?, hfs]
  simp only [Option.bind_eq_bind, Option.bind_some, hid, haddress, Option.pure_def]

theorem isExact_toJson (m : Metadata) : m.toJson.IsExact := ⟨trivial, trivial, trivial⟩

theorem ofJson_toJson (m : Metadata) : ofJson m.toJson = .ok m := by
  rw [ofJson, m.readsAs_toJson .tableOrList m.toJson (.refl _)]

/-- The text of an answer gives the identity of the machine as it is, and its address by the
standard text, which is read as that address. -/
def Shows (answer : Json) (m : Metadata) : Prop :=
  ∃ value ip, Json.parse? answer.render = some value ∧ value.field? "id" = some (.text m.id) ∧
    value.field? "ip" = some (.text ip) ∧ IpAddress.parse? ip = some m.address ∧
    m.address.IsStandardText ip.toList

theorem shows_of_fields {answer : Json} (hexact : answer.IsExact)
    (hid : answer.field? "id" = some (.text m.id))
    (hip : answer.field? "ip" = some (.text m.address.render)) : Shows answer m := by
  refine ⟨answer, m.address.render, Json.parse?_render hexact, hid, hip, ?_, ?_⟩
  · exact IpAddress.parse?_render m.address
  · rw [IpAddress.render, String.toList_ofList]
    exact m.address.isStandardText_renderChars

/-- Whatever its identity and its address are, the record of a machine is read back from its text,
and so are both from the answer to whoever has started the machine and from the list of machines,
where the machine has an entry, ready or not. -/
theorem machine_is_read_back (m : Metadata) :
    (Json.parse? m.toJson.render).map ofJson = some (.ok m) ∧ Shows m.runAnswer m ∧
      ∀ {γ : Type} (controller : γ) (ready : Bool),
        Shows (Server.Api.entryJson ⟨m.id, controller, m.address, ready⟩) m := by
  refine ⟨?_, ?_, fun controller ready => ?_⟩
  · rw [Json.parse?_render m.isExact_toJson, Option.map_some, ofJson_toJson]
  · exact shows_of_fields ⟨trivial, trivial, trivial⟩ rfl rfl
  · exact shows_of_fields ⟨trivial, trivial, trivial, trivial⟩ rfl rfl

end MachineFleet.Metadata
