import LightClient.Proofs.Counting
import LightClient.Proofs.HeaderLeaves
import LightClient.Proofs.Roots
import LightClient.Storage.Recording
import LightClient.Proofs.Recency
import LightClient.Proofs.Positive
import LightClient.Proofs.Lifetime
import LightClient.Proofs.Authority
import LightClient.Proofs.Backing
import LightClient.Proofs.ReceiptJoins
import LightClient.Proofs.AnchorSearch
import LightClient.Proofs.Rejection
import LightClient.Proofs.DataGaps
import LightClient.Proofs.HomePartition
import LightClient.Proofs.EntryFlaws
import LightClient.Proofs.PartitionFormats
import LightClient.Proofs.UrlGrammar
import LightClient.Proofs.Agreement
import LightClient.Proofs.KeptReports
import LightClient.Proofs.CacheBalance
import LightClient.Proofs.HeightPaths
import LightClient.Proofs.HashText
import LightClient.Proofs.Varint
import LightClient.Proofs.HeaderWords
import LightClient.Proofs.Threshold
import LightClient.Proofs.Positions
