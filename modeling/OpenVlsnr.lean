import OpenVlsnr.BbFrame
import OpenVlsnr.BbFrameBits
import OpenVlsnr.TsStream
import OpenVlsnr.TsRoundTrip
import OpenVlsnr.PlutoTx
import OpenVlsnr.BerlekampMassey
import OpenVlsnr.Gf2Pattern
import OpenVlsnr.PowerSums
import OpenVlsnr.BinaryMinpoly
import OpenVlsnr.GfTables
import OpenVlsnr.BchEncode
import OpenVlsnr.MinPoly
import OpenVlsnr.BchGenerator
import OpenVlsnr.BchDecode
import OpenVlsnr.BchCorrection
import OpenVlsnr.BchCode
import OpenVlsnr.BucketFill
import OpenVlsnr.LdpcCsr
import OpenVlsnr.LdpcEncode
import OpenVlsnr.Extrinsic
import OpenVlsnr.LdpcDecode
import OpenVlsnr.LdpcPass
import OpenVlsnr.Interpolation
import OpenVlsnr.BoxplusTable
import OpenVlsnr.FecChain
import OpenVlsnr.PlField
import OpenVlsnr.Demodulator
import OpenVlsnr.DemodOutcome
import OpenVlsnr.DemodStream
import OpenVlsnr.DemodRemoval
import OpenVlsnr.DemodWindow
import OpenVlsnr.DemodRetry
import OpenVlsnr.DemodHistory
import OpenVlsnr.TimingSync
import OpenVlsnr.TimingRange
import OpenVlsnr.TsAtomic
import OpenVlsnr.RingSlots
import OpenVlsnr.RingBuf
import OpenVlsnr.PlutoRxQueue
import OpenVlsnr.Crc32
import OpenVlsnr.FrameProtocol
import OpenVlsnr.FrameErrors
import OpenVlsnr.GoldSequence
import OpenVlsnr.GsFrame
import OpenVlsnr.Crc8
import OpenVlsnr.HeaderErrors
import OpenVlsnr.TsDamage
import OpenVlsnr.DemodLock
import OpenVlsnr.TsRxSafety
import OpenVlsnr.LdpcExits
import OpenVlsnr.BchSystematic
import OpenVlsnr.DelayLine
import OpenVlsnr.RrcFilter
import OpenVlsnr.Crc32Bits
import OpenVlsnr.TcpTransfer
import OpenVlsnr.BchMinPolys
import OpenVlsnr.NearestWord
import OpenVlsnr.PlHeader
import OpenVlsnr.Radix2
import OpenVlsnr.SyncFft
import OpenVlsnr.VlsnrHeader
import OpenVlsnr.AfcLoop
import OpenVlsnr.FrameReception
import OpenVlsnr.Loopback
import OpenVlsnr.PlutoRx
import OpenVlsnr.PlutoTxStream
import OpenVlsnr.TsLink
