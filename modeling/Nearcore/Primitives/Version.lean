import Mathlib

/-! Protocol versions and the features the modelled code checks
(`core/primitives-core/src/version.rs`): a feature is enabled from the version it was released
in. -/
namespace Nearcore

/-- `ProtocolVersion` (`u32`). -/
abbrev ProtocolVersion := Nat

/-- The `ProtocolFeature`s the modelled code asks about. -/
inductive ProtocolFeature where
  | statelessValidation
  | fixStakingThreshold
  | fixChunkProducerStakingThreshold
  | bandwidthScheduler
  deriving DecidableEq, Repr

namespace ProtocolFeature

/-- `ProtocolFeature::protocol_version`. -/
def protocolVersion : ProtocolFeature → ProtocolVersion
  | statelessValidation => 69
  | fixStakingThreshold => 74
  | fixChunkProducerStakingThreshold => 74
  | bandwidthScheduler => 74

/-- `ProtocolFeature::enabled`. -/
def enabled (feature : ProtocolFeature) (protocolVersion : ProtocolVersion) : Bool :=
  decide (feature.protocolVersion ≤ protocolVersion)

section
attribute [local simp] enabled
end

end ProtocolFeature

end Nearcore
