import Polkadot.BTreeMap
import Polkadot.CandidateAgreement.Basic
import Polkadot.CandidateAgreement.Import
import Polkadot.CandidateAgreement.Growth
import Polkadot.CandidateAgreement.Invariant
import Polkadot.CandidateAgreement.Evidence
import Polkadot.CandidateAgreement.Proposal
import Polkadot.CandidateAgreement.OrderIndependence
import Polkadot.CandidateAgreement.Detection
import Polkadot.Collator.Ingress
import Polkadot.Network.ImportQueue
import Polkadot.Network.ImportThread
import Polkadot.Runtime.Codec
