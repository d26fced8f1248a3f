import MachineFleet.Config.Record

namespace MachineFleet

structure Metadata where
  id : String
  address : IpAddress
  deriving DecidableEq, Repr

namespace Metadata

def ofDocument? (form : RecordForm) (d : Document) : Option Metadata := do
  let fields ← d.fields? form ["id", "address"]
  return {
    id := ← fields.require "id" Document.text?
    address := ← fields.require "address" Document.address? }

def ofJson (value : Json) : Except Error Metadata :=
  match ofDocument? .tableOrList value.document with
  | some m => .ok m
  | none => .error .json

def toJson (m : Metadata) : Json := .record [
  ("id", .text m.id),
  ("address", .text m.address.render)]

def runAnswer (m : Metadata) : Json := .record [
  ("id", .text m.id),
  ("ip", .text m.address.render)]

end Metadata

end MachineFleet
