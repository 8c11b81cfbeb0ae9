import Strongbox.Aead.Ccm.OneShot
import Strongbox.Aead.Gcm.OneShot
import Strongbox.Aead.Session
import Strongbox.Aead.Packed
import Strongbox.Buffer
import Strongbox.Checked
import Strongbox.Keystream.Position
import Strongbox.Random.Clients
import Strongbox.Random.Journal
import Strongbox.Random.Ledger
import Strongbox.Random.SharedRng
import Strongbox.Random.Succession
import Strongbox.Random.WordQueue
import Strongbox.Proofs.CbcMac
import Strongbox.Proofs.Ghash
import Strongbox.Proofs.Checked
import Strongbox.Proofs.Stretches
import Strongbox.Proofs.Aead.CounterBlocks
import Strongbox.Proofs.Aead.Record
import Strongbox.Proofs.Aead.Encoding
import Strongbox.Proofs.Aead.Standard
import Strongbox.Proofs.Aead.Transcript
import Strongbox.Proofs.Aead.Gcm
import Strongbox.Proofs.Aead.Gcm.Packed
import Strongbox.Proofs.Aead.Ccm
import Strongbox.Proofs.Aead.Ccm.Packed
import Strongbox.Proofs.CbcMac.Segments
import Strongbox.Proofs.Aead.Stream
import Strongbox.Proofs.Aead.OneShot
import Strongbox.Proofs.Aead.RoundTrip
import Strongbox.Proofs.Aead.History
import Strongbox.Proofs.Aead.Protocol
import Strongbox.Proofs.Aead.Lengths
import Strongbox.Proofs.Aead.Packed
import Strongbox.Proofs.Buffer
import Strongbox.Proofs.Capacity
import Strongbox.Proofs.Aead.Counters
import Strongbox.Proofs.Aead.Encrypted
import Strongbox.Proofs.Aead.Limits
import Strongbox.Proofs.Aead.Causes
import Strongbox.Proofs.Aead.Refused
import Strongbox.Proofs.Aead.InPlace
import Strongbox.Proofs.Aead.Position
import Strongbox.Proofs.Aead.Queries
import Strongbox.Proofs.Random.WordQueue
import Strongbox.Proofs.BinaryField
import Strongbox.Proofs.Field128
import Strongbox.Proofs.OneApart
import Strongbox.Proofs.Aes
import Strongbox.Proofs.Aead.Detection
import Strongbox.Proofs.Random.Succession
import Strongbox.Proofs.Random.Stream
import Strongbox.Proofs.Random.Erasure
import Strongbox.Proofs.Random.Nonces
import Strongbox.Proofs.Random.Dealing
import Strongbox.Proofs.Random.Draws
import Strongbox.Proofs.Random.Labels
import Strongbox.Proofs.Random.Journal
import Strongbox.Proofs.Random.FirstSource
import Strongbox.Proofs.Random.Searches
import Strongbox.Proofs.Random.NonceWords
