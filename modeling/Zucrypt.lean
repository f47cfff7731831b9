import Zucrypt.Effects
import Zucrypt.ByteMemory
import Zucrypt.Machine
import Zucrypt.Status
import Zucrypt.Backend
import Zucrypt.KeyedHash
import Zucrypt.BlockChaining
import Zucrypt.AuthenticatedEncryption
import Zucrypt.ReferenceBackend
import Zucrypt.Lifetime
import Zucrypt.Hash
import Zucrypt.HashLaws
import Zucrypt.DigestTrace
import Zucrypt.DigestContract
import Zucrypt.HmacKeys
import Zucrypt.PsaMultipart
import Zucrypt.PsaOneShot
import Zucrypt.FailStop
import Zucrypt.Aes
import Zucrypt.AesChaining
import Zucrypt.Aead
import Zucrypt.Kdf
import Zucrypt.Custody
import Zucrypt.AllOrNothing
import Zucrypt.AeadLaws
import Zucrypt.AeadPlacement
import Zucrypt.RValues
import Zucrypt.CryptAead
import Zucrypt.PkeyHandle
import Zucrypt.PkeyWrite
import Zucrypt.PkeyOperations
import Zucrypt.NotReady
import Zucrypt.Der
import Zucrypt.RDer
import Zucrypt.KeyFormats
import Zucrypt.PkeyEncoding
import Zucrypt.Resources
import Zucrypt.Session
import Zucrypt.Accounts
import Zucrypt.PkeyResults
import Zucrypt.PkeyAccounts
import Zucrypt.NoLeak
import Zucrypt.Ordinary
import Zucrypt.PkeyOrdinary
import Zucrypt.AllocationWatch
import Zucrypt.MemoryReports
import Zucrypt.KeyStore
import Zucrypt.PkeyInvariant
import Zucrypt.PkeyWiping
import Zucrypt.OutputLengths
import Zucrypt.CalmRuns
import Zucrypt.KeyTheory
import Zucrypt.KeyMaking
import Zucrypt.KeySlots
import Zucrypt.SlotBackend
import Zucrypt.StaleHandles
import Zucrypt.RFunctions
import Zucrypt.CryptKeys
import Zucrypt.RsaKeys
import Zucrypt.KeyUse
import Zucrypt.MadeKeys
import Zucrypt.KeyWriting
import Zucrypt.CalmVectors
import Zucrypt.FreshRuns
import Zucrypt.ReferenceKeys
import Zucrypt.RsaTheory
import Zucrypt.RsaRange
import Zucrypt.CryptSignatures
import Zucrypt.RsaSchemes
import Zucrypt.PublicHalf
import Zucrypt.Verification
import Zucrypt.EcdsaParse
import Zucrypt.KeyVectors
import Zucrypt.KeyLists
import Zucrypt.KeyIntegers
import Zucrypt.WriteThreshold
import Zucrypt.OsRandom
import Zucrypt.RsaDecryption
import Zucrypt.WipedKeys
import Zucrypt.ConditionCalls
import Zucrypt.ChunkedCalls
import Zucrypt.ChunkedDigests
import Zucrypt.CryptHash
import Zucrypt.ChunkedResults
import Zucrypt.ChunkedCbc
import Zucrypt.ChunkedFailures
import Zucrypt.ChunkedDrivers
import Zucrypt.ConnectionEnds
import Zucrypt.PrefixReads
import Zucrypt.CryptEcKey
import Zucrypt.EcCoordinates
import Zucrypt.ReferenceCurves
import Zucrypt.EcKeys
import Zucrypt.NativeCalls
import Zucrypt.HeldContexts
import Zucrypt.LongjmpSafety
import Zucrypt.NativeLifetimes
import Zucrypt.StreamLifetimes
import Zucrypt.NativeSessions
import Zucrypt.ConstantTime
import Zucrypt.PasswordDerivation
import Zucrypt.PsaDerivation
import Zucrypt.DerivationStream
import Zucrypt.DerivationRuns
import Zucrypt.CryptAes
import Zucrypt.Hex
import Zucrypt.KdfContract
import Zucrypt.CryptPbkdf2
import Zucrypt.CryptAgreement
import Zucrypt.ReadyCalls
import Zucrypt.KeyService
import Zucrypt.KeyShares
import Zucrypt.Consumers
import Zucrypt.ConsumersApart
